import Taunicorn.Transport.Calls
import Taunicorn.Transport.Server

/-!
# A stopped object is not left paused

`pause` and `resume` load the terminal flag and store `paused`; `stop` and `close` swap the terminal
flag and clear `paused` behind it. Between the load and the store of a `pause` all of a `stop` fits,
and then the store comes last.

Where it does not come last, some call is still to clear the flag: a stop that has not come to its
own store yet, or a `resume` behind its check. That such a call exists whenever the object is
terminal and paused is the invariant, and when all calls have returned there is none.

## Main results

* `ServerPolled.clearing`, `Polled.clearing` — what one step does to the two flags
* `clearing_of_runs`, `coreClearing_of_runs` — the invariant, for a server and for a connection
* `reports_stopped` — what `accept` reports of a stopped server
* `stopped_not_paused` — both objects, once all calls have returned
-/

namespace Taunicorn

namespace Transport

variable {α ι : Type}

/-! ### A server -/

/-- The call is sure to store `paused = false`. -/
def ServerPC.Clears : ServerPC α → Prop
  | .swap => True
  | .clear _ => True
  | .store value => value = false
  | _ => False

/-- Some call is sure to clear the flag. -/
def Server.Clearing (server : Server α ι) : Prop := Owed (·.pc.Clears) server.calls

/-- A step that leaves no stopped server paused: where a `pause` stores, the server has not been
stopped, or some call is still to clear the flag. -/
def Server.Timely (server : Server α ι) : ServerLabel α ι → Prop
  | .poll id _ => ∀ call, server.calls id = some call → call.pc = .store true →
      server.shared.stopped = true → server.Clearing
  | _ => True

/-- All calls have returned. -/
def Server.Quiet (server : Server α ι) : Prop :=
  ∀ id call, server.calls id = some call → call.pc.Returned

variable {sh sh' : ServerShared α} {choice : ServerChoice} {op : ServerOp} {pc pc' : ServerPC α}
  {server server' : Server α ι} {label : ServerLabel α ι} {id : ι}

/-- **One step**: what leaves a server stopped and paused is a step of a call that is to clear the
flag, or found the server so, or is the store of a `pause`. -/
theorem ServerPolled.clearing (h : ServerPolled sh choice op pc pc' sh')
    (hstopped : sh'.stopped = true) (hpaused : sh'.paused = true) :
    pc'.Clears ∨ (sh.stopped = true ∧ sh.paused = true ∧ ¬pc.Clears) ∨
      (pc = .store true ∧ sh.stopped = true) := by
  cases h with
  | swapped => exact Or.inl trivial
  | cleared _ => exact absurd hpaused Bool.false_ne_true
  | clearedFirst => exact absurd hpaused Bool.false_ne_true
  | stored value =>
    obtain rfl : value = true := hpaused
    exact Or.inr (Or.inr ⟨rfl, hstopped⟩)
  | _ => exact Or.inr (Or.inl ⟨hstopped, hpaused, not_false⟩)

theorem ServerPC.not_clears_of_returned (h : pc.Returned) : ¬pc.Clears := by
  cases pc <;> first | exact not_false | exact h.elim

variable [DecidableEq ι]

/-- **A server that is stopped and paused** is about to be cleared, if no step before was
untimely. -/
theorem clearing_of_runs (h : Runs Server.step Server.Timely Server.bound server)
    (hstopped : server.shared.stopped = true) (hpaused : server.shared.paused = true) :
    server.Clearing := by
  refine h.invariant (fun server : Server α ι => server.shared.stopped = true →
    server.shared.paused = true → server.Clearing) ?_ ?_ hstopped hpaused
  · exact fun h => absurd h Bool.false_ne_true
  intro server label server' hinv htimely hstep hstopped hpaused
  cases Pool.stepped hstep with
  | called id op hnone =>
    refine (hinv hstopped hpaused).update fun c hc => ?_
    exact absurd (hc.symm.trans hnone) (Option.some_ne_none _)
  | polled id choice call call' shared hcall hpoll =>
    rcases (ServerPolled.of_poll hpoll).2.clearing hstopped hpaused with
      hclears | ⟨hstopped, hpaused, hnot⟩ | ⟨hpc, hstopped⟩
    · exact owed_update_self hclears
    · refine (hinv hstopped hpaused).update fun c hc hclears => ?_
      obtain rfl := Option.some.inj (hcall.symm.trans hc)
      exact absurd hclears hnot
    · refine (htimely call hcall hpc hstopped).update fun c hc hclears => ?_
      obtain rfl := Option.some.inj (hcall.symm.trans hc)
      rw [hpc] at hclears
      exact absurd hclears (by simp [ServerPC.Clears])
  | moved client shared hshared =>
    cases hshared
    exact hinv hstopped hpaused

/-! ### What a stopped server reports -/

def ServerOp.accepts : ServerOp → Bool
  | .accept => true
  | .acceptTimeout => true
  | _ => false

/-- Where a call can stand that was made on a stopped server. -/
def ServerCall.Late (call : ServerCall α) : Prop :=
  (∀ v, call.pc ≠ .store v) ∧ (call.op.accepts = true →
    call.pc = .paused ∨ call.pc = .stopped ∨ call.pc = .done (.error serverStopped))

omit [DecidableEq ι] in
theorem ServerPolled.late (h : ServerPolled sh choice op pc pc' sh')
    (hstopped : sh.stopped = true) (hpaused : sh.paused = false)
    (hlate : ServerCall.Late ⟨op, pc⟩) :
    (sh'.stopped = true ∧ sh'.paused = false) ∧ ServerCall.Late ⟨op, pc'⟩ := by
  obtain ⟨hstore, haccepts⟩ := hlate
  -- where only the calls that accept nothing stand
  have hother : (∀ v, pc' ≠ .store v) → pc ≠ .paused → pc ≠ .stopped →
      pc ≠ .done (.error serverStopped) → ServerCall.Late ⟨op, pc'⟩ := by
    intro hpc' h₁ h₂ h₃
    refine ⟨hpc', fun hop => ?_⟩
    rcases haccepts hop with h | h | h
    · exact absurd h h₁
    · exact absurd h h₂
    · exact absurd h h₃
  cases h with
  | paused hset => exact absurd (hpaused.symm.trans hset) Bool.false_ne_true
  | unpaused _ => exact ⟨⟨hstopped, hpaused⟩, by simp, fun _ => Or.inr (Or.inl rfl)⟩
  | stopped _ => exact ⟨⟨hstopped, hpaused⟩, by simp, fun _ => Or.inr (Or.inr rfl)⟩
  | started hclear => exact absurd (hclear.symm.trans hstopped) Bool.false_ne_true
  | swapped => exact ⟨⟨rfl, hpaused⟩, hother (by simp) (by simp) (by simp) (by simp)⟩
  | passed value hclear => exact absurd (hclear.symm.trans hstopped) Bool.false_ne_true
  | stored value => exact absurd rfl (hstore value)
  | cleared _ => exact ⟨⟨hstopped, rfl⟩, hother (by simp) (by simp) (by simp) (by simp)⟩
  | clearedFirst => exact ⟨⟨hstopped, rfl⟩, hother (by simp) (by simp) (by simp) (by simp)⟩
  | _ => exact ⟨⟨hstopped, hpaused⟩, hother (by simp) (by simp) (by simp) (by simp)⟩

/-- Once all calls on a stopped server have returned, and it is not paused, it is not paused again,
and the calls of `accept` that follow find it stopped. -/
theorem late_of_runs (hquiet : server.Quiet) (hstopped : server.shared.stopped = true)
    (hpaused : server.shared.paused = false)
    (h : Runs Server.step (fun _ _ => True) server server') :
    (server'.shared.stopped = true ∧ server'.shared.paused = false) ∧
      ∀ id call, server'.calls id = some call → server.calls id = some call ∨ call.Late := by
  refine Pool.forall_calls (fun sh => sh.stopped = true ∧ sh.paused = false)
    (fun id _ call => server.calls id = some call ∨ call.Late) h ⟨hstopped, hpaused⟩
    (fun id call hcall => Or.inl hcall) ?_ ?_ ?_
  · intro sh id op _
    refine Or.inr ⟨?_, ?_⟩
    · cases op <;> simp [serverSpec, ServerOp.enter]
    · cases op <;> simp [serverSpec, ServerOp.enter, ServerOp.accepts]
  · rintro s id call choice call' sh - hcall hpoll ⟨hstopped, hpaused⟩ (hold | hlate)
    · exact absurd ((ServerCall.poll_returned (hquiet id call hold) _ _).symm.trans hpoll)
        (Option.some_ne_none _).symm
    · obtain ⟨hop, hpolled⟩ := ServerPolled.of_poll hpoll
      obtain ⟨hflags, hlate'⟩ := hpolled.late hstopped hpaused hlate
      exact ⟨hflags, Or.inr (by rwa [← hop] at hlate'), fun _ _ h => h⟩
  · intro sh client sh' henv hflags
    cases henv
    exact ⟨hflags, fun _ _ h => h⟩

/-- **What `accept` reports of a stopped server**, once all calls have returned and it is not
paused: a call that returns reports it as stopped, whatever else is called, and a call that is left
alone returns. -/
theorem reports_stopped (hquiet : server.Quiet) (hstopped : server.shared.stopped = true)
    (hpaused : server.shared.paused = false) (hnone : server.calls id = none)
    (hop : op.accepts = true) :
    (∀ server', Runs Server.step (fun _ _ => True) server server' →
      ∀ outcome, server'.calls id = some ⟨op, .done outcome⟩ →
        outcome = .error serverStopped) ∧
    ∃ server', runLabels Server.step (fun _ _ => true) server
        [.call id op, .poll id .go, .poll id .go] = some server' ∧
      server'.calls id = some ⟨op, .done (.error serverStopped)⟩ := by
  refine ⟨fun server' hruns outcome hcall => ?_, ?_⟩
  · rcases (late_of_runs hquiet hstopped hpaused hruns).2 id _ hcall with hold | ⟨-, hlate⟩
    · exact absurd (hold.symm.trans hnone) (Option.some_ne_none _)
    · rcases hlate hop with h | h | h <;> cases h
      rfl
  · have henter : (op.enter : ServerPC α) = .paused := by
      cases op <;> first | rfl | exact absurd hop Bool.false_ne_true
    refine ⟨⟨server.shared, Function.update server.calls id
      (some ⟨op, .done (.error serverStopped)⟩)⟩, ?_, Function.update_self ..⟩
    simp only [runLabels, Pool.step, hnone, serverSpec, henter, if_true, Option.bind_some,
      Function.update_self, ServerCall.poll, hpaused, Bool.false_eq_true, if_false, Option.map_some,
      hstopped, Function.update_idem]

/-! ### A connection -/

/-- The call is sure to store `paused = false`: inside `ConnectionState::close`, or as a `resume`
behind its check. -/
def Op.Clears (op : Op) : PC → Prop
  | .closing .closed _ _ => True
  | .closing .paused _ _ => True
  | .store => op = .resume
  | _ => False

def Core.Clearing (core : Core ι) : Prop :=
  Owed (fun call : Call => call.op.Clears call.pc) core.calls

/-- A step that leaves no closed connection paused. -/
def Core.Timely (core : Core ι) : Label ι → Prop
  | .poll id _ => ∀ call, core.calls id = some call → call.op = .pause → call.pc = .store →
      core.shared.state.closed = true → core.Clearing
  | _ => True

/-- All calls have returned. -/
def Core.Quiet (core : Core ι) : Prop := ∀ id call, core.calls id = some call → ¬call.pc.Live

omit [DecidableEq ι] in
theorem Core.Quiet.not_clearing {core : Core ι} (h : core.Quiet) : ¬core.Clearing := by
  rintro ⟨id, call, hcall, hclears⟩
  have hlive := h id call hcall
  cases hpc : call.pc <;> rw [hpc] at hlive hclears <;>
    first | exact hclears | exact hlive trivial

/-- **One step**: what leaves a connection closed and paused is a step of a call that is to clear
the flag, or found the connection so, or is the store of a `pause`. -/
theorem Polled.clearing {sh : Shared ι} {op : Op} {pc pc' : PC} {w w' : ℕ} {effect : Effect}
    (h : Polled sh id op pc w effect pc' w')
    (hclosed : (sh.perform id op effect).state.closed = true)
    (hpaused : (sh.perform id op effect).state.paused = true) :
    op.Clears pc' ∨ (sh.state.closed = true ∧ sh.state.paused = true ∧ ¬op.Clears pc) ∨
      (op = .pause ∧ pc = .store ∧ sh.state.closed = true) := by
  have hother : (∀ v, effect ≠ .store .closed v) → (∀ v, effect ≠ .store .paused v) →
      ¬op.Clears pc → op.Clears pc' ∨ (sh.state.closed = true ∧ sh.state.paused = true ∧
        ¬op.Clears pc) ∨ (op = .pause ∧ pc = .store ∧ sh.state.closed = true) := by
    intro hnclosed hnpaused hclears
    exact Or.inr (Or.inl ⟨(sh.perform_load id op hnclosed).symm.trans hclosed,
      (sh.perform_load id op hnpaused).symm.trans hpaused, hclears⟩)
  cases h with
  | stored hstored =>
    cases Op.stores_of_stored hstored
    · exact hother (by simp) (by simp) Op.noConfusion
    · exact hother (by simp) (by simp) Op.noConfusion
    · exact Or.inr (Or.inr ⟨rfl, rfl, hclosed⟩)
    · exact absurd hpaused Bool.false_ne_true
  | closing stage first error =>
    cases stage with
    | closed => exact Or.inl trivial
    | paused => exact absurd hpaused Bool.false_ne_true
    | _ => exact hother (by simp [pollClosing]) (by simp [pollClosing]) not_false
  | _ => exact hother (by simp) (by simp) not_false

/-- **A connection that is closed and paused** is about to be cleared, if no step before was
untimely. -/
theorem coreClearing_of_runs {core : Core ι} (h : Runs Core.step Core.Timely {} core)
    (hclosed : core.shared.state.closed = true) (hpaused : core.shared.state.paused = true) :
    core.Clearing := by
  refine h.invariant (fun core : Core ι => core.shared.state.closed = true →
    core.shared.state.paused = true → core.Clearing) ?_ ?_ hclosed hpaused
  · exact fun h => absurd h Bool.false_ne_true
  intro core label core' hinv htimely hstep hclosed hpaused
  obtain ⟨i, c, hstepped⟩ := Core.stepped hstep
  cases hstepped with
  | called id op hnone =>
    refine (hinv hclosed hpaused).update fun c hc => ?_
    exact absurd (hc.symm.trans hnone) (Option.some_ne_none _)
  | polled id choice call call' effect hcall hop hpolled =>
    rcases hpolled.clearing hclosed hpaused with
      hclears | ⟨hclosed, hpaused, hnot⟩ | ⟨hpause, hpc, hclosed⟩
    · exact owed_update_self (by rwa [hop])
    · refine (hinv hclosed hpaused).update fun c hc hclears => ?_
      obtain rfl := Option.some.inj (hcall.symm.trans hc)
      exact absurd hclears hnot
    · refine (htimely call hcall hpause hpc hclosed).update fun c hc hclears => ?_
      obtain rfl := Option.some.inj (hcall.symm.trans hc)
      rw [hpc, hpause] at hclears
      exact Op.noConfusion hclears
  | dropped id call effect hcall hdrop =>
    dsimp only at hclosed hpaused
    rw [state_of_drop _ _ hdrop] at hclosed hpaused
    refine (hinv hclosed hpaused).update fun c hc hclears => ?_
    obtain rfl := Option.some.inj (hcall.symm.trans hc)
    rcases (drop_eq_some hdrop).1 with hpc | hpc | hpc <;> rw [hpc] at hclears <;>
      exact hclears.elim

/-! ### Once all calls have returned -/

omit [DecidableEq ι] in
theorem Server.Quiet.not_clearing (h : server.Quiet) : ¬server.Clearing := by
  rintro ⟨id, call, hcall, hclears⟩
  exact absurd hclears (ServerPC.not_clears_of_returned (h id call hcall))

/-- **A stopped object is not left paused**, in a run without an untimely store of a `pause`. When
all calls have returned, a stopped server is not paused, so that `accept` reports it as stopped, and
a closed connection is not paused. -/
theorem stopped_not_paused :
    (∀ server : Server α ι, Runs Server.step Server.Timely Server.bound server → server.Quiet →
      server.shared.stopped = true → server.shared.paused = false ∧
        ∀ id op, server.calls id = none → op.accepts = true →
          (∀ server', Runs Server.step (fun _ _ => True) server server' →
            ∀ outcome, server'.calls id = some ⟨op, .done outcome⟩ →
              outcome = .error serverStopped) ∧
          ∃ server', runLabels Server.step (fun _ _ => true) server
              [.call id op, .poll id .go, .poll id .go] = some server' ∧
            server'.calls id = some ⟨op, .done (.error serverStopped)⟩) ∧
    (∀ core : Core ι, Runs Core.step Core.Timely {} core → core.Quiet →
      core.shared.state.closed = true → core.shared.state.paused = false) := by
  refine ⟨fun server hruns hquiet hstopped => ?_, fun core hruns hquiet hclosed => ?_⟩
  · have hpaused : server.shared.paused = false := by
      refine Bool.eq_false_iff.mpr fun hpaused => ?_
      exact hquiet.not_clearing (clearing_of_runs hruns hstopped hpaused)
    exact ⟨hpaused, fun id op hnone hop => reports_stopped hquiet hstopped hpaused hnone hop⟩
  · refine Bool.eq_false_iff.mpr fun hpaused => ?_
    exact hquiet.not_clearing (coreClearing_of_runs hruns hclosed hpaused)

/-- A `pause` and a `stop`: before the check of the first, or between its check and its store. -/
def pauseRun (between : Bool) : List (ServerLabel ℕ Bool) :=
  if between then
    [PoolLabel.call false .pause, .poll false .go, .call true .stop] ++
      List.replicate 4 (PoolLabel.poll true .go) ++ [PoolLabel.poll false .go]
  else
    [PoolLabel.call false .pause, .poll false .go, .poll false .go, .call true .stop] ++
      List.replicate 4 (PoolLabel.poll true .go)

def pausedServer (between : Bool) : Server ℕ Bool :=
  (runLabels Server.step (fun _ _ => true) Server.bound (pauseRun between)).getD Server.bound

/-- A `pause` and a `close`, in the same orders. -/
def corePauseRun (between : Bool) : List (Label Bool) :=
  [Label.call false .pause, .poll false .go, .poll false .go] ++
    (if between then [] else [Label.poll false .go]) ++ [Label.call true .close] ++
    List.replicate 8 (Label.poll true .go) ++
    [Label.poll true .gate, .poll true .gate, .poll true .complete, .poll true .go] ++
    (if between then [Label.poll false .go] else [])

def pausedCore (between : Bool) : Core Bool :=
  (runLabels Core.step (fun _ _ => true) {} (corePauseRun between)).getD {}

theorem pausedServer_quiet (between : Bool) : (pausedServer between).Quiet := by
  intro id call hcall
  cases between <;> cases id <;> cases hcall <;> trivial

theorem pausedCore_quiet (between : Bool) : (pausedCore between).Quiet := by
  intro id call hcall
  cases between <;> cases id <;> cases hcall <;> exact not_false

/-- A check of timeliness that looks at no other call. -/
def beforeStop (server : Server ℕ Bool) : ServerLabel ℕ Bool → Bool
  | .poll id _ =>
    match server.calls id with
    | some ⟨_, .store true⟩ => !server.shared.stopped
    | _ => true
  | _ => true

def beforeClose (core : Core Bool) : Label Bool → Bool
  | .poll id _ =>
    match core.calls id with
    | some ⟨.pause, .store, _⟩ => !core.shared.state.closed
    | _ => true
  | _ => true

theorem runs_pausedServer :
    Runs Server.step Server.Timely Server.bound (pausedServer false) := by
  refine runs_of_runLabels (fun server label hcheck => ?_)
    (show runLabels _ beforeStop Server.bound (pauseRun false) = some (pausedServer false) from rfl)
  cases label with
  | poll id choice =>
    rintro ⟨op, pc⟩ hcall rfl hstopped
    simp [beforeStop, hcall, hstopped] at hcheck
  | _ => trivial

theorem runs_pausedCore : Runs Core.step Core.Timely {} (pausedCore false) := by
  refine runs_of_runLabels (fun core label hcheck => ?_)
    (show runLabels _ beforeClose {} (corePauseRun false) = some (pausedCore false) from rfl)
  cases label with
  | poll id choice =>
    rintro ⟨op, pc, w⟩ hcall rfl rfl hclosed
    simp [beforeClose, hcall, hclosed] at hcheck
  | _ => trivial

theorem stopped_not_paused_in_order :
    (pausedServer false).shared.paused = false ∧
      (pausedCore false).shared.state.paused = false := by
  obtain ⟨hserver, hcore⟩ := @stopped_not_paused ℕ Bool _
  exact ⟨(hserver _ runs_pausedServer (pausedServer_quiet false) rfl).1,
    hcore _ runs_pausedCore (pausedCore_quiet false) rfl⟩

/-- **Between the check and the store of a `pause` all of a `stop` fits**, and all of a `close`. -/
theorem stopped_not_paused_race :
    (¬∀ server : Server ℕ Bool, Runs Server.step (fun _ _ => True) Server.bound server →
      server.Quiet → server.shared.stopped = true → server.shared.paused = false) ∧
    ¬∀ core : Core Bool, Runs Core.step (fun _ _ => True) {} core → core.Quiet →
      core.shared.state.closed = true → core.shared.state.paused = false := by
  refine ⟨fun hnever => ?_, fun hnever => ?_⟩
  · have hruns : Runs Server.step (fun _ _ => True) Server.bound (pausedServer true) :=
      runs_of_runLabels (fun _ _ _ => trivial)
        (show runLabels _ (fun _ _ => true) Server.bound (pauseRun true) = some (pausedServer true)
          from rfl)
    exact absurd (hnever _ hruns (pausedServer_quiet true) rfl) Bool.false_ne_true.symm
  · have hruns : Runs Core.step (fun _ _ => True) {} (pausedCore true) :=
      runs_of_runLabels (fun _ _ _ => trivial)
        (show runLabels _ (fun _ _ => true) {} (corePauseRun true) = some (pausedCore true)
          from rfl)
    exact absurd (hnever _ hruns (pausedCore_quiet true) rfl) Bool.false_ne_true.symm

end Transport

end Taunicorn
