import Taunicorn.Lib.Pool
import Taunicorn.Transport.Closing

/-!
# Snapshots of a connection

`ConnectionCore::info` loads four flags, one after the other, in the order in which
`ConnectionState::close` stores three of them. The pool of this module is any number of calls of
`info` over a connection: the environment of a call is the connection with all of its calls, each
step of it a step of `Core.step`.

`ConnectionHandle::info` of the Python wrapper takes such a snapshot, loads `closed` once more, and
where it is set overrides the snapshot. `ReadHalf::info` and `WriteHalf::info` do not. The handle of
a secure connection, whose `closed` is another flag, is not part of this.

A snapshot is torn if it is closed with a direction that is not shut down. The identifier and the
endpoints, which never change, are left out.

## Main definitions

* `InfoCall.poll` — one load of a call of `info`
* `Settled` — the steps that do not begin a snapshot in the middle of a close

## Main results

* `overridden_not_torn` — the snapshots of the wrapper
* `info_not_torn` — the snapshots of `info`
* `torn_of_unsettled` — a snapshot of `info` that begins in the middle of a close
* `snapshot_current` — what a snapshot may show, and what it has to
-/

namespace Taunicorn

namespace Transport

/-- The flags of `ConnectionInfo`. -/
structure ConnectionInfo where
  isClosed : Bool
  isReadShutdown : Bool
  isWriteShutdown : Bool
  peerSentEof : Bool
  deriving DecidableEq, Repr

/-- What a snapshot shows of a flag. -/
def ConnectionInfo.load (info : ConnectionInfo) : Flag → Option Bool
  | .closed => some info.isClosed
  | .readShutdown => some info.isReadShutdown
  | .writeShutdown => some info.isWriteShutdown
  | .peerSentEof => some info.peerSentEof
  | .paused => none

/-- A snapshot that is not torn. -/
def ConnectionInfo.Whole (info : ConnectionInfo) : Prop :=
  info.isClosed = true → info.isReadShutdown = true ∧ info.isWriteShutdown = true

/-- Who takes the snapshot. -/
inductive InfoOp where
  /-- `info` of `Connection`, `ReadHalf` and `WriteHalf`. -/
  | info
  /-- `ConnectionHandle::info`, on a plain connection. -/
  | overridden
  deriving DecidableEq, Repr

/-- The next load, and what the loads before it have found. -/
inductive InfoPC where
  | closed
  | readShutdown (isClosed : Bool)
  | writeShutdown (isClosed isReadShutdown : Bool)
  | peerSentEof (isClosed isReadShutdown isWriteShutdown : Bool)
  /-- `is_closed()` behind the snapshot. -/
  | override (info : ConnectionInfo)
  | done (info : ConnectionInfo)
  deriving DecidableEq, Repr

structure InfoCall where
  op : InfoOp
  pc : InfoPC := .closed
  deriving DecidableEq, Repr

variable {ι κ : Type}

/-- **One step of a call of `info`**: one load. -/
def InfoCall.poll (state : ConnectionState) (call : InfoCall) : Option InfoCall :=
  match call.pc with
  | .closed => some { call with pc := .readShutdown (state.load .closed) }
  | .readShutdown c => some { call with pc := .writeShutdown c (state.load .readShutdown) }
  | .writeShutdown c r => some { call with pc := .peerSentEof c r (state.load .writeShutdown) }
  | .peerSentEof c r w =>
    let info : ConnectionInfo := ⟨c, r, w, state.load .peerSentEof⟩
    match call.op with
    | .info => some { call with pc := .done info }
    | .overridden => some { call with pc := .override info }
  | .override info =>
    some { call with
      pc := .done (if state.load .closed then
        { info with isClosed := true, isReadShutdown := true, isWriteShutdown := true }
        else info) }
  | .done _ => none

/-- Calls of `info` over a connection that goes on by itself. -/
def infoSpec (ι : Type) [DecidableEq ι] :
    CallSpec (Core ι) InfoCall InfoOp Unit (Label ι) where
  enter op := { op }
  poll core call _ := (call.poll core.shared.state).map fun call' => (call', core)
  env := Core.step

/-- A connection, with calls of its own on the identifiers of `ι` and calls of `info` on those of
`κ`. -/
abbrev Observed (ι κ : Type) := Pool (Core ι) InfoCall κ

abbrev Observed.step [DecidableEq ι] [DecidableEq κ] :
    Observed ι κ → PoolLabel κ InfoOp Unit (Label ι) → Option (Observed ι κ) :=
  Pool.step (infoSpec ι)

/-- No call of `close` or `fail_connection` is between its swap of `closed` and its last store: a
connection that is closed is shut down in both directions. -/
def Core.Settled (core : Core ι) : Prop :=
  core.shared.state.closed = true →
    core.shared.state.readShutdown = true ∧ core.shared.state.writeShutdown = true

/-- A step that does not begin a snapshot of `info` where a close is under way. -/
def Observed.Settled (observed : Observed ι κ) : PoolLabel κ InfoOp Unit (Label ι) → Prop
  | .poll id _ => observed.calls id = some { op := .info } → observed.shared.Settled
  | _ => True

/-! ### What holds of every call of `info` -/

/-- Every flag but `paused` that is set in one state is set in the other. -/
def ConnectionState.Grows (state state' : ConnectionState) : Prop :=
  ∀ flag : Flag, flag.lasting = true → state.load flag = true → state'.load flag = true

variable {state state' : ConnectionState} {pc : InfoPC} {call call' : InfoCall} {id : κ}
  {op : InfoOp} {info : ConnectionInfo}

theorem InfoCall.op_of_poll (hpoll : call.poll state = some call') :
    call'.op = call.op ∧ ∀ info, call'.pc = .override info → call.op = .overridden := by
  obtain ⟨op, pc⟩ := call
  cases pc with
  | peerSentEof c r w => cases op <;> cases hpoll <;> simp
  | done info => exact absurd hpoll.symm (Option.some_ne_none _)
  | _ => cases hpoll; simp

variable [DecidableEq ι] [DecidableEq κ] {observed : Observed ι κ}

/-- The connection only ever sets the flags that a snapshot consists of. -/
theorem Core.grows_of_step {core core' : Core ι} {label : Label ι}
    (h : core.step label = some core') : core.shared.state.Grows core'.shared.state :=
  fun flag hflag => load_of_step flag hflag h

/-- **The rule.** What a call of `info` begins with, keeps by its loads, and does not lose while the
connection goes on, holds of every call. -/
theorem Observed.forall_calls
    {allowed : Observed ι κ → PoolLabel κ InfoOp Unit (Label ι) → Prop}
    (P : ConnectionState → InfoCall → Prop)
    (h : Runs Observed.step allowed { shared := {} } observed)
    (henter : ∀ state op, P state { op })
    (hmono : ∀ {state state' call}, state.Grows state' → P state call → P state' call)
    (hpoll : ∀ {observed : Observed ι κ} {id choice call call'},
      allowed observed (.poll id choice) → observed.calls id = some call →
      call.poll observed.shared.shared.state = some call' →
      P observed.shared.shared.state call → P observed.shared.shared.state call')
    (hcall : observed.calls id = some call) : P observed.shared.shared.state call := by
  refine (Pool.forall_calls (fun _ => True) (fun _ (core : Core ι) call => P core.shared.state call)
    h trivial ?_ ?_ ?_ ?_).2 id call hcall
  · exact fun id call hcall => absurd hcall.symm (Option.some_ne_none _)
  · exact fun core _ op _ => henter core.shared.state op
  · intro observed id call choice call' core hallowed hcall hstep _ hP
    obtain ⟨c, hload, hcore⟩ := Option.map_eq_some_iff.mp hstep
    cases hcore
    exact ⟨trivial, hpoll hallowed hcall hload hP, fun _ _ hc => hc⟩
  · intro core label core' hstep _
    exact ⟨trivial, fun _ _ hc => hmono (Core.grows_of_step hstep) hc⟩

/-! ### The snapshots of the wrapper -/

/-- A snapshot that is closed so far is one of a connection that is closed. -/
def InfoCall.Backed (state : ConnectionState) (call : InfoCall) : Prop :=
  match call.pc with
  | .closed => True
  | .readShutdown c => c = true → state.load .closed = true
  | .writeShutdown c _ => c = true → state.load .closed = true
  | .peerSentEof c _ _ => c = true → state.load .closed = true
  | .override info => info.isClosed = true → state.load .closed = true
  | .done info => call.op = .overridden → info.Whole

/-- **A snapshot of the wrapper is never torn**, wherever it begins. -/
theorem overridden_not_torn {allowed : Observed ι κ → PoolLabel κ InfoOp Unit (Label ι) → Prop}
    (h : Runs Observed.step allowed { shared := {} } observed)
    (hcall : observed.calls id = some ⟨.overridden, .done info⟩) : info.Whole := by
  refine Observed.forall_calls InfoCall.Backed h (fun _ _ => trivial) ?_ ?_ hcall rfl
  · rintro state state' ⟨op, pc⟩ hgrows hbacked
    have hclosed := hgrows .closed rfl
    cases pc <;> first | exact hbacked | exact fun hc => hclosed (hbacked hc)
  · rintro observed id choice ⟨op, pc⟩ call' - - hload hbacked
    cases pc with
    | closed => cases hload; exact fun hc => hc
    | readShutdown c => cases hload; exact hbacked
    | writeShutdown c r => cases hload; exact hbacked
    | peerSentEof c r w =>
      cases op <;> cases hload
      · exact fun h => InfoOp.noConfusion h
      · exact hbacked
    | override info =>
      cases hload
      intro _
      split
      · exact fun _ => ⟨rfl, rfl⟩
      · next hopen => exact fun hc => absurd (hbacked hc) hopen
    | done info => exact absurd hload.symm (Option.some_ne_none _)

/-! ### The snapshots of `info` -/

/-- What a snapshot that is closed so far tells of the connection and of itself. -/
def InfoPC.Sound (state : ConnectionState) : InfoPC → Prop
  | .closed => True
  | .readShutdown c =>
    c = true → state.load .readShutdown = true ∧ state.load .writeShutdown = true
  | .writeShutdown c r => c = true → r = true ∧ state.load .writeShutdown = true
  | .peerSentEof c r w => c = true → r = true ∧ w = true
  | .override info => info.Whole
  | .done info => info.Whole

theorem InfoPC.Sound.mono (h : pc.Sound state) (hgrows : state.Grows state') :
    pc.Sound state' := by
  have hread := hgrows .readShutdown rfl
  have hwrite := hgrows .writeShutdown rfl
  cases pc with
  | readShutdown c => exact fun hc => (h hc).imp hread hwrite
  | writeShutdown c r => exact fun hc => (h hc).imp_right hwrite
  | _ => exact h

/-- A load of `info` keeps the snapshot sound, if it does not begin it in the middle of a close. -/
theorem InfoCall.sound_of_poll (hpoll : call.poll state = some call')
    (hsettled : call.pc = .closed → state.load .closed = true →
      state.load .readShutdown = true ∧ state.load .writeShutdown = true)
    (hsound : call.pc.Sound state) : call'.pc.Sound state := by
  obtain ⟨op, pc⟩ := call
  cases pc with
  | closed => cases hpoll; exact hsettled rfl
  | readShutdown c => cases hpoll; exact hsound
  | writeShutdown c r => cases hpoll; exact hsound
  | peerSentEof c r w => cases op <;> cases hpoll <;> exact hsound
  | override info =>
    cases hpoll
    dsimp only
    split
    · exact fun _ => ⟨rfl, rfl⟩
    · exact hsound
  | done info => exact absurd hpoll.symm (Option.some_ne_none _)

/-- **Snapshots of a connection are not torn**, in a run in which no call of `info` begins one in
the middle of a close: where it is closed, both directions are shut down. -/
theorem info_not_torn (h : Runs Observed.step Observed.Settled { shared := {} } observed)
    (hcall : observed.calls id = some ⟨op, .done info⟩) (hclosed : info.isClosed = true) :
    info.isReadShutdown = true ∧ info.isWriteShutdown = true := by
  cases op with
  | overridden => exact overridden_not_torn h hcall hclosed
  | info =>
    refine Observed.forall_calls (fun state call => call.op = .info → call.pc.Sound state) h
      (fun _ _ _ => trivial) (fun hgrows hsound hop => (hsound hop).mono hgrows) ?_ hcall rfl
      hclosed
    rintro observed id choice ⟨op, pc⟩ call' hsettled hcall hload hsound hop
    have hinfo : op = .info := (InfoCall.op_of_poll hload).1.symm.trans hop
    subst hinfo
    exact InfoCall.sound_of_poll hload (fun hpc => hsettled (hpc ▸ hcall)) (hsound rfl)

/-- **A snapshot that begins in the middle of a close is torn**, if nothing happens until it is
complete. -/
theorem torn_of_unsettled (hcall : observed.calls id = some { op := .info })
    (hunsettled : ¬observed.shared.Settled) :
    ∃ observed' info, runLabels Observed.step (fun _ _ => true) observed
        (List.replicate 4 (.poll id ())) = some observed' ∧
      observed'.calls id = some ⟨.info, .done info⟩ ∧ ¬info.Whole := by
  obtain ⟨core, calls⟩ := observed
  dsimp only at hcall hunsettled
  let info : ConnectionInfo := ⟨core.shared.state.closed, core.shared.state.readShutdown,
    core.shared.state.writeShutdown, core.shared.state.peerSentEof⟩
  refine ⟨⟨core, Function.update calls id (some ⟨.info, .done info⟩)⟩, info, ?_,
    Function.update_self .., hunsettled⟩
  simp only [List.replicate, runLabels, Pool.step, infoSpec, InfoCall.poll, hcall, if_true,
    Option.map_some, Option.bind_some, Function.update_self, Function.update_idem,
    ConnectionState.load, info]

/-- A close takes that many steps, and then a snapshot is taken. -/
def closeRun (steps : ℕ) : List (PoolLabel ℕ InfoOp Unit (Label ℕ)) :=
  .env (.call 0 .close) :: List.replicate steps (.env (.poll 0 .go)) ++
    .call 1 .info :: List.replicate 4 (.poll 1 ())

def snapshotOf (steps : ℕ) : Observed ℕ ℕ :=
  (runLabels Observed.step (fun _ _ => true) { shared := {} } (closeRun steps)).getD
    { shared := {} }

/-- The check of `Observed.Settled`. -/
def settled (observed : Observed ℕ ℕ) : PoolLabel ℕ InfoOp Unit (Label ℕ) → Bool
  | .poll id _ =>
    match observed.calls id with
    | some ⟨.info, .closed⟩ =>
      let state := observed.shared.shared.state
      !state.closed || (state.readShutdown && state.writeShutdown)
    | _ => true
  | _ => true

theorem runs_snapshotOf :
    Runs Observed.step Observed.Settled { shared := {} } (snapshotOf 6) := by
  refine runs_of_runLabels (fun observed label hcheck => ?_)
    (show runLabels _ settled { shared := {} } (closeRun 6) = some (snapshotOf 6) from rfl)
  cases label with
  | poll id choice =>
    intro hcall hclosed
    simpa [settled, hcall, hclosed] using hcheck
  | _ => trivial

theorem info_not_torn_behind :
    ∃ info, (snapshotOf 6).calls 1 = some ⟨.info, .done info⟩ ∧ info.isClosed = true ∧
      info.isReadShutdown = true ∧ info.isWriteShutdown = true := by
  have hcall : (snapshotOf 6).calls 1 = some ⟨.info, .done ⟨true, true, true, false⟩⟩ := rfl
  exact ⟨_, hcall, rfl, info_not_torn runs_snapshotOf hcall rfl⟩

/-- **A snapshot can be torn**: between the swap of `closed` and the stores that follow it, a call
of `info` finds a closed connection and two directions that are not shut down. -/
theorem info_torn :
    ¬∀ (observed : Observed ℕ ℕ) (id : ℕ) (info : ConnectionInfo),
      Runs Observed.step (fun _ _ => True) { shared := {} } observed →
      observed.calls id = some ⟨.info, .done info⟩ → info.isClosed = true →
        info.isReadShutdown = true ∧ info.isWriteShutdown = true := by
  intro hwhole
  have hruns : Runs Observed.step (fun _ _ => True) { shared := {} } (snapshotOf 2) :=
    runs_of_runLabels (fun _ _ _ => trivial)
      (show runLabels _ (fun _ _ => true) { shared := {} } (closeRun 2) = some (snapshotOf 2)
        from rfl)
  have hinfo := hwhole (snapshotOf 2) 1 ⟨true, false, false, false⟩ hruns rfl rfl
  exact absurd hinfo.1 Bool.false_ne_true

/-! ### When a snapshot is current -/

/-- What the loads so far have found. -/
def InfoPC.found : InfoPC → Flag → Option Bool
  | .readShutdown c, .closed => some c
  | .writeShutdown c _, .closed => some c
  | .writeShutdown _ r, .readShutdown => some r
  | .peerSentEof c _ _, .closed => some c
  | .peerSentEof _ r _, .readShutdown => some r
  | .peerSentEof _ _ w, .writeShutdown => some w
  | .override info, flag => info.load flag
  | .done info, flag => info.load flag
  | _, _ => none

theorem InfoPC.lasting_of_found {flag : Flag} {value : Bool} (h : pc.found flag = some value) :
    flag.lasting = true := by
  cases flag with
  | paused => cases pc <;> exact absurd h.symm (Option.some_ne_none _)
  | _ => rfl

/-- What has been found lies between two states of the connection. The wrapper shows a direction of
a closed connection as shut down before that is stored. -/
structure InfoCall.Between (before after : ConnectionState) (call : InfoCall) : Prop where
  op : ∀ info, call.pc = .override info → call.op = .overridden
  lower : ∀ flag value, call.pc.found flag = some value → before.load flag = true → value = true
  upper : ∀ flag, call.pc.found flag = some true → after.load flag = true ∨
    (call.op = .overridden ∧ after.load .closed = true)

variable {before : ConnectionState}

omit [DecidableEq ι] [DecidableEq κ] in
theorem InfoCall.Between.mono (h : call.Between before state) (hgrows : state.Grows state') :
    call.Between before state' where
  op := h.op
  lower := h.lower
  upper flag hfound := (h.upper flag hfound).imp (hgrows flag (InfoPC.lasting_of_found hfound))
    (And.imp_right (hgrows .closed rfl))

omit [DecidableEq ι] [DecidableEq κ] in
/-- What a load leaves: what was found before, the flag it has loaded, and the override. -/
theorem InfoCall.found_of_poll (hpoll : call.poll state = some call') {flag : Flag} {value : Bool}
    (hfound : call'.pc.found flag = some value) :
    call.pc.found flag = some value ∨ value = state.load flag ∨
      ((∃ info, call.pc = .override info) ∧ state.load .closed = true ∧ value = true) := by
  obtain ⟨op, pc⟩ := call
  cases pc with
  | closed => cases hpoll; cases flag <;> simp_all [InfoPC.found]
  | readShutdown c => cases hpoll; cases flag <;> simp_all [InfoPC.found]
  | writeShutdown c r => cases hpoll; cases flag <;> simp_all [InfoPC.found]
  | peerSentEof c r w =>
    cases op <;> cases hpoll <;> cases flag <;> simp_all [InfoPC.found, ConnectionInfo.load]
  | override info =>
    cases hpoll
    dsimp only at hfound
    split at hfound
    · next hclosed =>
      cases flag <;> simp_all [InfoPC.found, ConnectionInfo.load]
    · exact Or.inl hfound
  | done info => exact absurd hpoll.symm (Option.some_ne_none _)

omit [DecidableEq ι] [DecidableEq κ] in
theorem InfoCall.Between.poll (h : call.Between before state) (hgrows : before.Grows state)
    (hpoll : call.poll state = some call') : call'.Between before state := by
  obtain ⟨hop, hoverride⟩ := InfoCall.op_of_poll hpoll
  refine ⟨fun info hinfo => hop.trans (hoverride info hinfo), fun flag value hfound hbefore => ?_,
    fun flag hfound => ?_⟩
  · rcases InfoCall.found_of_poll hpoll hfound with hold | rfl | ⟨-, -, rfl⟩
    · exact h.lower flag value hold hbefore
    · exact hgrows flag (InfoPC.lasting_of_found hfound) hbefore
    · rfl
  · rw [hop]
    rcases InfoCall.found_of_poll hpoll hfound with hold | hload | ⟨⟨info, hinfo⟩, hclosed, -⟩
    · exact h.upper flag hold
    · exact Or.inl hload.symm
    · exact Or.inr ⟨h.op info hinfo, hclosed⟩

/-- A call that has loaded nothing yet, if it has been made. -/
def Observed.Fresh (observed : Observed ι κ) (id : κ) : Prop :=
  ∀ call, observed.calls id = some call → call.pc = .closed

omit [DecidableEq ι] [DecidableEq κ] in
theorem InfoCall.between_closed {before after : ConnectionState} (h : call.pc = .closed) :
    call.Between before after := by
  refine ⟨fun info hinfo => ?_, fun flag value hfound => ?_, fun flag hfound => ?_⟩
  · exact absurd (h.symm.trans hinfo) (by simp)
  · rw [h] at hfound
    exact absurd hfound.symm (Option.some_ne_none _)
  · rw [h] at hfound
    exact absurd hfound.symm (Option.some_ne_none _)

/-- **The run lemma.** -/
theorem between_of_runs {allowed : Observed ι κ → PoolLabel κ InfoOp Unit (Label ι) → Prop}
    {observed' : Observed ι κ} (hfresh : observed.Fresh id)
    (h : Runs Observed.step allowed observed observed') (hcall : observed'.calls id = some call) :
    call.Between observed.shared.shared.state observed'.shared.shared.state := by
  refine (h.invariant (fun x => observed.shared.shared.state.Grows x.shared.shared.state ∧
    ∀ call, x.calls id = some call →
      call.Between observed.shared.shared.state x.shared.shared.state)
    ⟨fun _ _ hset => hset, fun call hcall => InfoCall.between_closed (hfresh call hcall)⟩ ?_).2
    call hcall
  rintro x label x' ⟨hgrows, hbetween⟩ - hstep
  cases Pool.stepped hstep with
  | called i op hnone =>
    refine ⟨hgrows, fun call hcall => ?_⟩
    dsimp only at hcall
    by_cases hi : id = i
    · subst hi
      rw [Function.update_self] at hcall
      exact InfoCall.between_closed (Option.some.inj hcall ▸ rfl)
    · rw [Function.update_of_ne hi] at hcall
      exact hbetween call hcall
  | polled i choice c c' core hc hpoll =>
    obtain ⟨c'', hload, hcore⟩ := Option.map_eq_some_iff.mp hpoll
    cases hcore
    refine ⟨hgrows, fun call hcall => ?_⟩
    dsimp only at hcall
    by_cases hi : id = i
    · subst hi
      rw [Function.update_self, Option.some.injEq] at hcall
      exact hcall ▸ (hbetween c hc).poll hgrows hload
    · rw [Function.update_of_ne hi] at hcall
      exact hbetween call hcall
  | moved label core hcore =>
    have hmore := Core.grows_of_step hcore
    exact ⟨fun flag hflag hset => hmore flag hflag (hgrows flag hflag hset),
      fun call hcall => (hbetween call hcall).mono hmore⟩

/-- **A snapshot is current**, whoever takes it, while the connection goes on by itself: it shows
every flag that was set before it began, and none that is not set when it is complete. The wrapper
shows both directions of a closed connection as shut down, even in the middle of a close. -/
theorem snapshot_current
    (h : Runs Observed.step (fun _ _ => True) { shared := {} } observed)
    {observed' : Observed ι κ} (hfresh : observed.Fresh id)
    (hruns : Runs Observed.step (fun _ _ => True) observed observed')
    (hcall : observed'.calls id = some ⟨op, .done info⟩) :
    (∀ flag value, info.load flag = some value →
      (observed.shared.shared.state.load flag = true → value = true) ∧
      (value = true → observed'.shared.shared.state.load flag = true ∨
        (op = .overridden ∧ observed'.shared.shared.state.load .closed = true))) ∧
      (op = .overridden → info.Whole) := by
  have hbetween := between_of_runs hfresh hruns hcall
  refine ⟨fun flag value hvalue => ⟨hbetween.lower flag value hvalue, ?_⟩, ?_⟩
  · rintro rfl
    exact hbetween.upper flag hvalue
  · rintro rfl
    exact overridden_not_torn (h.trans hruns) hcall

/-- A close has swapped `closed`, and has stored no other flag. -/
def closingRun : List (PoolLabel ℕ InfoOp Unit (Label ℕ)) :=
  .env (.call 0 .close) :: List.replicate 2 (.env (.poll 0 .go))

def closingObserved : Observed ℕ ℕ :=
  (runLabels Observed.step (fun _ _ => true) { shared := {} } closingRun).getD { shared := {} }

/-- The wrapper takes its snapshot there, where that of `info` is torn. -/
def overriddenRun : List (PoolLabel ℕ InfoOp Unit (Label ℕ)) :=
  .call 1 .overridden :: List.replicate 5 (.poll 1 ())

def overriddenSnapshot : Observed ℕ ℕ :=
  (runLabels Observed.step (fun _ _ => true) closingObserved overriddenRun).getD { shared := {} }

theorem snapshot_current_closing :
    overriddenSnapshot.calls 1 = some ⟨.overridden, .done ⟨true, true, true, false⟩⟩ ∧
      overriddenSnapshot.shared.shared.state.load .readShutdown = false ∧
      overriddenSnapshot.shared.shared.state.load .closed = true := by
  have hclosing : Runs Observed.step (fun _ _ => True) { shared := {} } closingObserved :=
    runs_of_runLabels (fun _ _ _ => trivial)
      (show runLabels _ (fun _ _ => true) { shared := {} } closingRun = some closingObserved
        from rfl)
  have hruns : Runs Observed.step (fun _ _ => True) closingObserved overriddenSnapshot :=
    runs_of_runLabels (fun _ _ _ => trivial)
      (show runLabels _ (fun _ _ => true) closingObserved overriddenRun = some overriddenSnapshot
        from rfl)
  have hcall : overriddenSnapshot.calls 1
      = some ⟨.overridden, .done ⟨true, true, true, false⟩⟩ := rfl
  have hfresh : closingObserved.Fresh 1 := fun call hsome =>
    absurd hsome.symm (Option.some_ne_none call)
  obtain ⟨hcurrent, -⟩ := snapshot_current hclosing hfresh hruns hcall
  have hread : overriddenSnapshot.shared.shared.state.load .readShutdown = false := rfl
  refine ⟨hcall, hread, ?_⟩
  rcases (hcurrent .readShutdown true rfl).2 rfl with hset | ⟨-, hclosed⟩
  · exact absurd (hread.symm.trans hset) Bool.false_ne_true
  · exact hclosed

end Transport

end Taunicorn
