import Taunicorn.Transport.Reads

/-!
# Reads with a timeout

`Connection::read_timeout` polls a `read_bytes`, which is a `receive` into a buffer of its own,
inside a `tokio::time::timeout`. Where the deadline passes while the `receive` is pending, that is
dropped and an error takes its place. `send_timeout`, which watches its deadline itself, is an
operation of the core.

## Main results

* `Connection.runs_core` — for the core a deadline that passes is a dropped `receive`
* `Connection.outcome_of_elapse` — what such a call returns
-/

namespace Taunicorn

namespace Transport

variable {ι : Type}

/-- A connection. Its methods are the operations of the core and `read_timeout`. -/
structure Connection (ι : Type) where
  core : Core ι := {}
  /-- For a call of `read_timeout`, whether its deadline has passed. -/
  elapsed : ι → Option Bool := fun _ => none

/-- The labels of the core, and those of `read_timeout`. -/
inductive ConnectionLabel (ι : Type) where
  | call (id : ι) (op : Op)
  | readTimeout (id : ι) (max : ℕ)
  | poll (id : ι) (choice : Choice)
  | drop (id : ι)
  /-- The deadline of a call of `read_timeout` passes. -/
  | elapse (id : ι)
  deriving DecidableEq, Repr

/-- A call waits, for its gate or for the raw stream. -/
def Call.pending (call : Call) : Bool :=
  match call.pc with
  | .gateWait => true
  | .io => true
  | _ => false

/-- **One step of a connection.** -/
def Connection.step [DecidableEq ι] (connection : Connection ι) :
    ConnectionLabel ι → Option (Connection ι)
  | .call id op =>
    (connection.core.step (.call id op)).map fun core =>
      { core, elapsed := Function.update connection.elapsed id none }
  | .readTimeout id max =>
    (connection.core.step (.call id (.receive max))).map fun core =>
      { core, elapsed := Function.update connection.elapsed id (some false) }
  | .poll id choice =>
    (connection.core.step (.poll id choice)).map fun core => { connection with core }
  | .drop id => (connection.core.step (.drop id)).map fun core => { connection with core }
  | .elapse id =>
    if connection.elapsed id = some false && (connection.core.calls id).any Call.pending then
      (connection.core.step (.drop id)).map fun core =>
        { core, elapsed := Function.update connection.elapsed id (some true) }
    else none

/-- The error of a call of `read_timeout` whose deadline has passed. -/
def readElapsed : Error := .msg "socket read timeout"

/-- The outcome of a call, once it is fixed. -/
def Connection.outcome (connection : Connection ι) (id : ι) : Option Outcome :=
  (connection.core.calls id).bind fun call =>
    match connection.elapsed id, call.op with
    | some true, _ => some (.error readElapsed)
    | some false, .receive max =>
      call.outcome.map fun outcome => (readBytes max outcome).map .data
    | _, _ => call.outcome

variable [DecidableEq ι] {connection connection' : Connection ι} {label : ConnectionLabel ι}
  {id : ι}

/-- What a step is for the core. -/
def ConnectionLabel.inner : ConnectionLabel ι → Label ι
  | .call id op => .call id op
  | .readTimeout id max => .call id (.receive max)
  | .poll id choice => .poll id choice
  | .drop id => .drop id
  | .elapse id => .drop id

/-- Every step of a connection is one step of its core. -/
theorem Connection.core_of_step (h : connection.step label = some connection') :
    connection.core.step label.inner = some connection'.core := by
  cases label with
  | elapse id =>
    rw [Connection.step] at h
    split_ifs at h with hpending
    obtain ⟨core, hcore, rfl⟩ := Option.map_eq_some_iff.mp h
    exact hcore
  | _ =>
    obtain ⟨core, hcore, rfl⟩ := Option.map_eq_some_iff.mp h
    exact hcore

/-- **For the core a deadline that passes is a dropped `receive`**: the runs of a connection are
runs of its core. -/
theorem Connection.runs_core {allowed : Connection ι → ConnectionLabel ι → Prop}
    (h : Runs Connection.step allowed connection connection') :
    Runs Core.step (fun _ _ => True) connection.core connection'.core :=
  h.map Connection.core fun _ label _ _ hstep =>
    Or.inr ⟨label.inner, trivial, Connection.core_of_step hstep⟩

/-- What a call returns whose deadline passes. -/
theorem Connection.outcome_of_elapse (h : connection.step (.elapse id) = some connection') :
    connection'.outcome id = some (.error readElapsed) := by
  rw [Connection.step] at h
  split_ifs at h with hpending
  obtain ⟨core, hcore, rfl⟩ := Option.map_eq_some_iff.mp h
  obtain ⟨i, call, hstepped⟩ := Core.stepped hcore
  cases hstepped with
  | dropped _ call effect hcall hdrop => simp [Connection.outcome]

end Transport

end Taunicorn
