import Taunicorn.Lib.Pool
import Taunicorn.Basic

/-!
# The server

`Server`: the two flags of `ServerState`, the slot of the listener and the stop token, used by any
number of calls at a time, and the clients that have arrived at the listener.

A step of a call is one access to the shared state: one atomic load, store or swap, one operation
on the slot or the token, or one answer to the `select!` of `accept`. That `select!` is not biased,
so that either of its branches may be taken where both are ready. It is also the only await point,
and the only place where a deadline can fire or the call can be dropped. Behind its branches no
shared state is left to access, so that taking a branch is returning.

The endpoint of the server, which every connection is labelled with, is left out, and so is the
poisoning of the slot's lock, which no code under it can cause.

## Main definitions

* `ServerShared`, `ServerCall`, `Server` — the state
* `ServerCall.poll` — one step of a call
* `prompt` — the steps that hand out no connection behind a stop

## Main results

* `ServerPolled.of_poll` — what one step of a call can do
* `serverStopping_of_runs` — a stop that returns leaves a cancelled token
* `no_connection_after_stop` — what is handed out once a stop has returned
-/

namespace Taunicorn

namespace Transport

/-! ### The shared state and the calls -/

/-- `ServerState`, the slot and the token of `Server`, and the clients that wait at the listener. -/
structure ServerShared (α : Type) where
  stopped : Bool := false
  paused : Bool := false
  stopToken : Bool := false
  /-- The slot still holds the listener. -/
  listener : Bool := true
  backlog : List α := []

inductive ServerOp where
  | accept
  /-- The timeout is the environment's. -/
  | acceptTimeout
  | stop
  | close
  | pause
  | resume
  deriving DecidableEq, Repr

/-- What a call returns. -/
inductive ServerValue (α : Type) where
  | unit
  | connection (client : α)
  deriving DecidableEq, Repr

/-- Where a call stands. -/
inductive ServerPC (α : Type) where
  /-- `is_paused()` in `accept`. -/
  | paused
  /-- `is_stopped()` in `listener`. -/
  | stopped
  /-- The slot in `listener`. -/
  | slot
  /-- The `select!` of `accept`, with a listener of its own. -/
  | select
  /-- The swap of `stopped`. -/
  | swap
  /-- `paused.store(false)` in `ServerState::stop`. -/
  | clear (first : Bool)
  /-- `stop_token.cancel()`. -/
  | cancel
  /-- Emptying the slot. -/
  | take
  /-- `is_stopped()` in `pause` or `resume`, on the way to storing the value. -/
  | check (value : Bool)
  /-- The store of `pause` or `resume`. -/
  | store (value : Bool)
  | done (outcome : Except Error (ServerValue α))
  | dropped

def ServerPC.Returned {α : Type} : ServerPC α → Prop
  | .done _ => True
  | .dropped => True
  | _ => False

structure ServerCall (α : Type) where
  op : ServerOp
  pc : ServerPC α

/-- The answers of the environment to a step. -/
inductive ServerChoice where
  /-- The step has one outcome. -/
  | go
  /-- The branch of the listener, with a client. -/
  | client
  /-- The branch of the listener, with an error. -/
  | fail (text : String)
  /-- The branch of the stop token. -/
  | stopToken
  /-- The deadline has passed. -/
  | timeout
  /-- The call is dropped. -/
  | drop
  deriving DecidableEq, Repr

variable {α ι : Type}

def serverPaused : Error := .msg "socket server is paused"

def serverStopped : Error := .msg "socket server is stopped"

/-- The first access of a call. -/
def ServerOp.enter : ServerOp → ServerPC α
  | .accept => .paused
  | .acceptTimeout => .paused
  | .stop => .swap
  | .close => .swap
  | .pause => .check true
  | .resume => .check false

/-- **One step of a call.** -/
def ServerCall.poll (sh : ServerShared α) (call : ServerCall α) (choice : ServerChoice) :
    Option (ServerCall α × ServerShared α) :=
  match call.pc, choice with
  | .paused, .go =>
    some ({ call with pc := if sh.paused then .done (.error serverPaused) else .stopped }, sh)
  | .stopped, .go =>
    some ({ call with pc := if sh.stopped then .done (.error serverStopped) else .slot }, sh)
  | .slot, .go =>
    some ({ call with pc := if sh.listener then .select else .done (.error serverStopped) }, sh)
  | .select, .client =>
    match sh.backlog with
    | [] => none
    | client :: backlog =>
      some ({ call with pc := .done (.ok (.connection client)) }, { sh with backlog })
  | .select, .fail text => some ({ call with pc := .done (.error (.io text)) }, sh)
  | .select, .stopToken =>
    if sh.stopToken then
      some ({ call with pc := .done (.error (.msg "socket server was stopped")) }, sh)
    else none
  | .select, .timeout =>
    match call.op with
    | .acceptTimeout =>
      some ({ call with pc := .done (.error (.msg "socket accept timeout")) }, sh)
    | _ => none
  | .select, .drop => some ({ call with pc := .dropped }, sh)
  | .swap, .go => some ({ call with pc := .clear (!sh.stopped) }, { sh with stopped := true })
  | .clear first, .go =>
    some ({ call with pc := if first then .cancel else .done (.ok .unit) },
      { sh with paused := false })
  | .cancel, .go => some ({ call with pc := .take }, { sh with stopToken := true })
  | .take, .go => some ({ call with pc := .done (.ok .unit) }, { sh with listener := false })
  | .check value, .go =>
    some ({ call with pc := if sh.stopped then .done (.ok .unit) else .store value }, sh)
  | .store value, .go =>
    some ({ call with pc := .done (.ok .unit) }, { sh with paused := value })
  | _, _ => none

/-- The calls of a server, and the clients that arrive. -/
def serverSpec (α : Type) : CallSpec (ServerShared α) (ServerCall α) ServerOp ServerChoice α where
  enter op := ⟨op, op.enter⟩
  poll := ServerCall.poll
  env sh client := some { sh with backlog := sh.backlog ++ [client] }

abbrev Server (α ι : Type) := Pool (ServerShared α) (ServerCall α) ι

abbrev ServerLabel (α ι : Type) := PoolLabel ι ServerOp ServerChoice α

abbrev Server.step [DecidableEq ι] : Server α ι → ServerLabel α ι → Option (Server α ι) :=
  Pool.step (serverSpec α)

/-- A server that has just been bound. -/
def Server.bound : Server α ι := { shared := {} }

/-! ### What one step of a call can do -/

/-- `ServerPolled sh choice op pc pc' sh'`: on that answer, a call of `op` can step from `pc` to
`pc'`, and leaves the shared state `sh'`. -/
inductive ServerPolled (sh : ServerShared α) (choice : ServerChoice) (op : ServerOp) :
    ServerPC α → ServerPC α → ServerShared α → Prop
  | paused : sh.paused = true →
      ServerPolled sh choice op .paused (.done (.error serverPaused)) sh
  | unpaused : sh.paused = false → ServerPolled sh choice op .paused .stopped sh
  | stopped : sh.stopped = true →
      ServerPolled sh choice op .stopped (.done (.error serverStopped)) sh
  | started : sh.stopped = false → ServerPolled sh choice op .stopped .slot sh
  | released : sh.listener = false →
      ServerPolled sh choice op .slot (.done (.error serverStopped)) sh
  | listening : sh.listener = true → ServerPolled sh choice op .slot .select sh
  | accepted (client : α) (backlog : List α) : choice = .client →
      sh.backlog = client :: backlog →
      ServerPolled sh choice op .select (.done (.ok (.connection client))) { sh with backlog }
  | failed (e : Error) : ServerPolled sh choice op .select (.done (.error e)) sh
  | dropped : ServerPolled sh choice op .select .dropped sh
  | swapped : ServerPolled sh choice op .swap (.clear (!sh.stopped)) { sh with stopped := true }
  | cleared : choice = .go →
      ServerPolled sh choice op (.clear false) (.done (.ok .unit)) { sh with paused := false }
  | clearedFirst : ServerPolled sh choice op (.clear true) .cancel { sh with paused := false }
  | cancelled : ServerPolled sh choice op .cancel .take { sh with stopToken := true }
  | taken : ServerPolled sh choice op .take (.done (.ok .unit)) { sh with listener := false }
  | refused (value : Bool) : sh.stopped = true →
      ServerPolled sh choice op (.check value) (.done (.ok .unit)) sh
  | passed (value : Bool) : sh.stopped = false →
      ServerPolled sh choice op (.check value) (.store value) sh
  | stored (value : Bool) :
      ServerPolled sh choice op (.store value) (.done (.ok .unit)) { sh with paused := value }

variable {sh sh' : ServerShared α} {choice : ServerChoice} {op : ServerOp} {pc pc' : ServerPC α}
  {call call' : ServerCall α} {server server' : Server α ι} {label : ServerLabel α ι} {id : ι}

/-- **The list is complete.** -/
theorem ServerPolled.of_poll (h : call.poll sh choice = some (call', sh')) :
    call'.op = call.op ∧ ServerPolled sh choice call.op call.pc call'.pc sh' := by
  obtain ⟨op, pc⟩ := call
  unfold ServerCall.poll at h
  dsimp only at h ⊢
  split at h
  case h_1 =>
    cases h
    cases hpaused : sh.paused
    · exact ⟨rfl, .unpaused hpaused⟩
    · exact ⟨rfl, .paused hpaused⟩
  case h_2 =>
    cases h
    cases hstopped : sh.stopped
    · exact ⟨rfl, .started hstopped⟩
    · exact ⟨rfl, .stopped hstopped⟩
  case h_3 =>
    cases h
    cases hlistener : sh.listener
    · exact ⟨rfl, .released hlistener⟩
    · exact ⟨rfl, .listening hlistener⟩
  case h_4 =>
    split at h
    · exact absurd h.symm (Option.some_ne_none _)
    · next client backlog hbacklog => cases h; exact ⟨rfl, .accepted client backlog rfl hbacklog⟩
  case h_5 => cases h; exact ⟨rfl, .failed _⟩
  case h_6 =>
    split at h
    · cases h; exact ⟨rfl, .failed _⟩
    · exact absurd h.symm (Option.some_ne_none _)
  case h_7 =>
    split at h
    · cases h; exact ⟨rfl, .failed _⟩
    · exact absurd h.symm (Option.some_ne_none _)
  case h_8 => cases h; exact ⟨rfl, .dropped⟩
  case h_9 => cases h; exact ⟨rfl, .swapped⟩
  case h_10 first =>
    cases h
    cases first
    · exact ⟨rfl, .cleared rfl⟩
    · exact ⟨rfl, .clearedFirst⟩
  case h_11 => cases h; exact ⟨rfl, .cancelled⟩
  case h_12 => cases h; exact ⟨rfl, .taken⟩
  case h_13 value =>
    cases h
    cases hstopped : sh.stopped
    · exact ⟨rfl, .passed value hstopped⟩
    · exact ⟨rfl, .refused value hstopped⟩
  case h_14 value => cases h; exact ⟨rfl, .stored value⟩
  case h_15 => exact absurd h.symm (Option.some_ne_none _)

theorem ServerPolled.not_returned (h : ServerPolled sh choice op pc pc' sh') : ¬pc.Returned := by
  cases h <;> exact not_false

/-- A call that has returned takes no step. -/
theorem ServerCall.poll_returned (h : call.pc.Returned) (sh : ServerShared α)
    (choice : ServerChoice) : call.poll sh choice = none := by
  cases hpoll : call.poll sh choice with
  | none => rfl
  | some x => exact absurd h (ServerPolled.of_poll hpoll).2.not_returned

/-! ### Nothing is handed out after a stop -/

/-- The operations that stop the server. -/
def ServerOp.stops : ServerOp → Bool
  | .stop => true
  | .close => true
  | _ => false

/-- A call of `stop` or `close` has returned. -/
def Server.Stopped (server : Server α ι) : Prop :=
  ∃ id call, server.calls id = some call ∧ call.op.stops = true ∧ call.pc = .done (.ok .unit)

/-- A call has returned a connection. -/
def Server.HandsOut (server : Server α ι) (id : ι) (client : α) : Prop :=
  ∃ call, server.calls id = some call ∧ call.pc = .done (.ok (.connection client))

/-- A step that hands out nothing late: the `select!` does not take the branch of the listener once
the token is cancelled, and a stop that finds the server stopped returns only behind the
cancellation of the token. -/
def prompt (server : Server α ι) : ServerLabel α ι → Bool
  | .poll _ .client => !server.shared.stopToken
  | .poll id .go =>
    match server.calls id with
    | some ⟨_, .clear false⟩ => server.shared.stopToken
    | _ => true
  | _ => true

/-- A run without a late step. -/
abbrev PromptRuns [DecidableEq ι] : Server α ι → Server α ι → Prop :=
  Runs Server.step (fun server label => prompt server label = true)

/-- Where a call of `stop` or `close` can stand. What follows the cancellation of the token is
reached with the token cancelled. -/
def ServerCall.Stopping (token : Bool) (call : ServerCall α) : Prop :=
  call.op.stops = true →
    match call.pc with
    | .swap => True
    | .clear _ => True
    | .cancel => True
    | .take => token = true
    | .done _ => token = true
    | _ => False

theorem ServerCall.Stopping.mono {token token' : Bool} (h : call.Stopping token)
    (htoken : token = true → token' = true) : call.Stopping token' := by
  obtain ⟨op, pc⟩ := call
  intro hstops
  have hpc := h hstops
  cases pc <;> first | exact hpc | exact htoken hpc

/-- Only the branch of the listener hands a connection out. -/
theorem ServerPolled.choice_of_connection {client : α}
    (h : ServerPolled sh choice op pc (.done (.ok (.connection client))) sh') :
    choice = .client := by
  cases h with
  | accepted _ backlog hchoice _ => exact hchoice

/-- The token is never renewed. -/
theorem ServerPolled.stopToken (h : ServerPolled sh choice op pc pc' sh')
    (htoken : sh.stopToken = true) : sh'.stopToken = true := by
  cases h <;> first | exact htoken | rfl

theorem ServerPolled.stopping (h : ServerPolled sh choice op pc pc' sh')
    (hstopping : ServerCall.Stopping sh.stopToken ⟨op, pc⟩)
    (hprompt : choice = .go → pc = .clear false → sh.stopToken = true) :
    ServerCall.Stopping sh'.stopToken ⟨op, pc'⟩ := by
  intro hstops
  have hpc := hstopping hstops
  cases h with
  | cleared hgo => exact hprompt hgo rfl
  | taken => exact hpc
  | cancelled => rfl
  | swapped => trivial
  | clearedFirst => trivial
  | _ => exact hpc.elim

variable [DecidableEq ι]

/-- **A stop that returns leaves a cancelled token**, if no step before was late. -/
theorem serverStopping_of_runs (h : PromptRuns Server.bound server) :
    ∀ id call, server.calls id = some call → call.Stopping server.shared.stopToken := by
  refine (Pool.forall_calls (fun _ => True) (fun _ sh call => call.Stopping sh.stopToken) h trivial
    ?_ ?_ ?_ ?_).2
  · intro id call hcall
    exact absurd hcall.symm (Option.some_ne_none _)
  · intro sh id op _ hstops
    cases op <;> trivial
  · intro server id call choice call' sh hprompt hcall hpoll _ hstopping
    obtain ⟨hop, hpolled⟩ := ServerPolled.of_poll hpoll
    refine ⟨trivial, ?_, fun j c hc => hc.mono hpolled.stopToken⟩
    have hown := hpolled.stopping hstopping fun hgo hpc => by
      obtain ⟨op, pc⟩ := call
      subst hgo hpc
      simpa only [prompt, hcall] using hprompt
    rwa [← hop] at hown
  · intro sh client sh' henv _
    cases henv
    exact ⟨trivial, fun j c hc => hc⟩

/-- A stop that has returned stays so. -/
theorem Server.Stopped.of_step (hstopped : server.Stopped)
    (h : server.step label = some server') : server'.Stopped := by
  obtain ⟨id, call, hcall, hstops, hpc⟩ := hstopped
  exact ⟨id, call, Pool.call_stays h hcall (ServerCall.poll_returned (by rw [hpc]; trivial) _),
    hstops, hpc⟩

/-- **The step.** With the token cancelled, a step that is not late hands nothing out. -/
theorem handsOut_of_step {client : α} (htoken : server.shared.stopToken = true)
    (hprompt : prompt server label = true) (h : server.step label = some server')
    (hout : server'.HandsOut id client) : server.HandsOut id client := by
  obtain ⟨call', hcall', hpc⟩ := hout
  rcases Pool.call_of_step h hcall' with hsame | ⟨op, -, rfl⟩ | ⟨choice, call, rfl, hcall, hpoll⟩
  · exact ⟨call', hsame, hpc⟩
  · cases op <;> cases hpc
  · have hpolled := (ServerPolled.of_poll hpoll).2
    rw [hpc] at hpolled
    obtain rfl := hpolled.choice_of_connection
    simp only [prompt, htoken] at hprompt
    exact absurd hprompt Bool.false_ne_true

/-- **No connection is handed out after a stop**, in a run without a late step: once a call of
`stop` or `close` has returned, the connections that have been handed out stay the same. -/
theorem no_connection_after_stop (h : PromptRuns Server.bound server)
    (hstopped : server.Stopped) (hlater : PromptRuns server server') (client : α)
    (hout : server'.HandsOut id client) : server.HandsOut id client := by
  have hinv := hlater.invariant (fun s => PromptRuns Server.bound s ∧ s.Stopped ∧
    ∀ id client, s.HandsOut id client → server.HandsOut id client)
    ⟨h, hstopped, fun _ _ hout => hout⟩ ?_
  · exact hinv.2.2 id client hout
  rintro s label s' ⟨hruns, hstopped, hsame⟩ hprompt hstep
  have htoken : s.shared.stopToken = true := by
    obtain ⟨i, c, hc, hstops, hpc⟩ := hstopped
    have hstopping := serverStopping_of_runs hruns i c hc hstops
    rwa [hpc] at hstopping
  exact ⟨hruns.tail hprompt hstep, hstopped.of_step hstep,
    fun id client hout => hsame id client (handsOut_of_step htoken hprompt hstep hout)⟩

/-! ### A stop between two accepts -/

/-- One accept is served, another waits in its `select!`, and a stop returns. -/
def stopRun : List (ServerLabel ℕ ℕ) :=
  PoolLabel.call 0 .accept :: List.replicate 3 (PoolLabel.poll 0 .go) ++
    [PoolLabel.env 7, .poll 0 .client] ++
    PoolLabel.call 1 .accept :: List.replicate 3 (PoolLabel.poll 1 .go) ++
    PoolLabel.call 2 .stop :: List.replicate 4 (PoolLabel.poll 2 .go)

/-- The run up to the return of the stop. -/
def stoppedServer : Server ℕ ℕ :=
  (runLabels Server.step (fun _ _ => true) Server.bound stopRun).getD Server.bound

/-- What follows, with a client at the listener, where the waiting accept gets that answer. -/
def afterStop (choice : ServerChoice) : Server ℕ ℕ :=
  (runLabels Server.step (fun _ _ => true) stoppedServer [.env 8, .poll 1 choice]).getD
    Server.bound

theorem stoppedServer_stopped : stoppedServer.Stopped := ⟨2, ⟨.stop, _⟩, rfl, rfl, rfl⟩

theorem promptRuns_stoppedServer : PromptRuns Server.bound stoppedServer :=
  runs_of_runLabels (fun _ _ h => h)
    (show runLabels _ prompt Server.bound stopRun = some stoppedServer from rfl)

theorem promptRuns_afterStop : PromptRuns stoppedServer (afterStop .stopToken) :=
  runs_of_runLabels (fun _ _ h => h)
    (show runLabels _ prompt stoppedServer [.env 8, .poll 1 .stopToken]
      = some (afterStop .stopToken) from rfl)

theorem no_connection_after_stop_example :
    (afterStop .stopToken).HandsOut 0 7 ∧ stoppedServer.HandsOut 0 7 := by
  have hout : (afterStop .stopToken).HandsOut 0 7 := ⟨⟨.accept, _⟩, rfl, rfl⟩
  exact ⟨hout, no_connection_after_stop promptRuns_stoppedServer stoppedServer_stopped
    promptRuns_afterStop 7 hout⟩

/-- **The `select!` of `accept` is not biased**: behind a stop that has returned, the waiting accept
takes the client all the same. -/
theorem no_connection_after_stop_unbiased :
    ¬∀ server server' : Server ℕ ℕ, Runs Server.step (fun _ _ => True) Server.bound server →
      server.Stopped → Runs Server.step (fun _ _ => True) server server' →
      ∀ id client, server'.HandsOut id client → server.HandsOut id client := by
  intro hnone
  have hruns : Runs Server.step (fun _ _ => True) stoppedServer (afterStop .client) :=
    runs_of_runLabels (fun _ _ _ => trivial)
      (show runLabels _ (fun _ _ => true) stoppedServer [.env 8, .poll 1 .client]
        = some (afterStop .client) from rfl)
  obtain ⟨call, hcall, hpc⟩ := hnone stoppedServer (afterStop .client)
    (promptRuns_stoppedServer.mono fun _ _ _ => trivial) stoppedServer_stopped hruns 1 8
    ⟨⟨.accept, _⟩, rfl, rfl⟩
  cases hcall
  cases hpc

/-- A stop that finds the server stopped can return ahead of the cancellation, and an accept whose
`select!` then has no other branch hands a client out. -/
example : ∃ server : Server ℕ ℕ, server.Stopped ∧ server.shared.stopToken = false ∧
    ∃ server', server.step (.poll 0 .client) = some server' ∧ server'.HandsOut 0 8 :=
  ⟨(runLabels Server.step (fun _ _ => true) Server.bound
      (PoolLabel.call 0 .accept :: List.replicate 3 (PoolLabel.poll 0 .go) ++
        [PoolLabel.call 1 .stop, .poll 1 .go, .call 2 .stop, .poll 2 .go, .poll 2 .go,
          .env 8])).getD
      Server.bound,
    ⟨2, ⟨.stop, _⟩, rfl, rfl, rfl⟩, rfl, _, rfl, ⟨.accept, _⟩, rfl, rfl⟩

end Transport

end Taunicorn
