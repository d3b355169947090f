import Mathlib.Logic.Function.Basic
import Taunicorn.Lib.FifoMutex
import Taunicorn.Lib.Machine
import Taunicorn.Transport.Clock
import Taunicorn.Basic

/-!
# The connection core

`ConnectionCore`: five atomic flags, two cancellation tokens, the slot of the raw stream, and one
fair gate for each direction, used by any number of calls at a time.

## Granularity

A call is a program counter. One step of a call is one access to the shared state, as the source
has them: one atomic load or store, one operation on a gate or a token, or one answer of the raw
stream. Between two steps of a call any other call may step. The branches of a `select!` are
choices of the environment, each with the condition under which its future is ready; so are the
answers of the raw stream, the readings of the clock and the expiry of a deadline.

A call can be dropped where it is suspended: before its first poll, in the queue of its gate, and
while an operation of the raw stream is pending. Dropping it drops its guard or its place in the
queue.

A call of `send_timeout` panics where its deadline is no `Instant`. The other calls go on, as they
do where a panic unwinds; under the release profile, which aborts, the run ends there.

## What is absent

The table of identifiers and endpoints, and the poisoning of the slot's lock, which no code under
it can cause. A raw read, write, flush or shutdown is pending for as long as the environment
likes.

## Main definitions

* `Shared`, `Call`, `Core` — the state
* `Call.poll` — one step of a call
* `Core.step` — one step of the connection
-/

namespace Taunicorn

namespace Transport

/-! ### The shared state -/

/-- The flags of `ConnectionState`. -/
inductive Flag where
  | closed
  | paused
  | readShutdown
  | writeShutdown
  | peerSentEof
  deriving DecidableEq, Repr

/-- `ConnectionState`. -/
structure ConnectionState where
  closed : Bool := false
  paused : Bool := false
  readShutdown : Bool := false
  writeShutdown : Bool := false
  peerSentEof : Bool := false
  deriving DecidableEq, Repr

def ConnectionState.load (s : ConnectionState) : Flag → Bool
  | .closed => s.closed
  | .paused => s.paused
  | .readShutdown => s.readShutdown
  | .writeShutdown => s.writeShutdown
  | .peerSentEof => s.peerSentEof

def ConnectionState.store (s : ConnectionState) (value : Bool) : Flag → ConnectionState
  | .closed => { s with closed := value }
  | .paused => { s with paused := value }
  | .readShutdown => { s with readShutdown := value }
  | .writeShutdown => { s with writeShutdown := value }
  | .peerSentEof => { s with peerSentEof := value }

/-- The fields of `ConnectionCore` that calls share, and the bytes handed to the raw stream. -/
structure Shared (ι : Type) where
  state : ConnectionState := {}
  closeToken : Bool := false
  readShutdownToken : Bool := false
  /-- The slot still holds the raw stream. -/
  stream : Bool := true
  readGate : FifoMutex ι := {}
  writeGate : FifoMutex ι := {}
  wire : List UInt8 := []

/-! ### Calls -/

/-- The operations of a connection. -/
inductive Op where
  | receive (max : ℕ)
  | writeOnce (data : List UInt8)
  | send (data : List UInt8)
  | sendTimeout (data : List UInt8) (timeout : Duration)
  | flush
  | shutdownRead
  | shutdownWrite
  | close
  | pause
  | resume
  deriving DecidableEq, Repr

/-- What an operation returns. -/
inductive Value where
  | unit
  | count (n : ℕ)
  | data (bytes : List UInt8)
  | endOfStream
  deriving DecidableEq, Repr

abbrev Outcome := Except Error Value

instance : DecidableEq Outcome := fun
  | .ok a, .ok b => decidable_of_iff (a = b) (by simp)
  | .error a, .error b => decidable_of_iff (a = b) (by simp)
  | .ok _, .error _ => .isFalse nofun
  | .error _, .ok _ => .isFalse nofun

/-- The steps of a full close: the four of `ConnectionState::close`, and what follows the first
of them that anybody makes. -/
inductive CloseStage where
  | closed
  | paused
  | readShutdown
  | writeShutdown
  | closeToken
  | readShutdownToken
  | stream
  deriving DecidableEq, Repr

/-- Where a call stands. -/
inductive PC where
  /-- Not polled yet. -/
  | start
  /-- `peer_sent_eof()`, ahead of the gate or behind it. -/
  | eof (behindGate : Bool)
  /-- A load of `ensure_read_available` or `ensure_write_available`. -/
  | ensure (behindGate : Bool) (flag : Flag)
  /-- A load that lets `shutdown_read`, `shutdown_write`, `pause` or `resume` do nothing. -/
  | idle (behindGate : Bool) (flag : Flag)
  /-- `Instant::now() + timeout` in `send_timeout`. -/
  | deadline
  /-- About to ask for the gate. -/
  | gate
  /-- In the queue of the gate, or given the gate and not polled since. -/
  | gateWait
  /-- The store of `shutdown_read`, `shutdown_write`, `pause` or `resume`. -/
  | store
  /-- `read_shutdown_token.cancel()` in `shutdown_read`. -/
  | cancelRead
  /-- The load in `stream()`. -/
  | streamClosed
  /-- The slot in `stream()`. -/
  | stream
  /-- The operation of the raw stream. -/
  | io
  /-- `peer_sent_eof.store(true)`. -/
  | storeEof
  /-- `fail_connection`, on the way to an error, or `close`. `first` tells whether the swap of
  `closed` made the transition. -/
  | closing (stage : CloseStage) (first : Bool) (error : Option Error)
  /-- The outcome is fixed, and the guard of the gate is to be dropped. -/
  | unwind (outcome : Outcome)
  | done (outcome : Outcome)
  | dropped
  | panicked

/-- One call: its operation, its program counter, and the local count of the bytes it has handed
over. -/
structure Call where
  op : Op
  pc : PC := .start
  written : ℕ := 0

/-- The buffer of a writing operation. -/
def Op.buffer : Op → List UInt8
  | .writeOnce data => data
  | .send data => data
  | .sendTimeout data _ => data
  | _ => []

/-- The flag of the operation's own direction. -/
def Op.flag : Op → Flag
  | .receive _ => .readShutdown
  | .shutdownRead => .readShutdown
  | _ => .writeShutdown

/-- The operations whose gate is the read gate. All others that need a gate need the write gate. -/
def Op.reads : Op → Bool
  | .receive _ => true
  | _ => false

/-- The operations that watch the close token while they wait. -/
def Op.watchesClose : Op → Bool
  | .shutdownWrite => false
  | .close => false
  | _ => true

def Shared.gate {ι : Type} (sh : Shared ι) (op : Op) : FifoMutex ι :=
  if op.reads then sh.readGate else sh.writeGate

/-- What a step does to the shared state. -/
inductive Effect where
  | none
  | store (flag : Flag) (value : Bool)
  | cancelClose
  | cancelRead
  | takeStream
  /-- Ask for the gate. -/
  | request
  /-- Give up the gate, or the place in its queue. -/
  | leave
  | write (bytes : List UInt8)
  deriving DecidableEq

/-- The answers of the environment to a step. -/
inductive Choice where
  /-- The step has one outcome. -/
  | go
  /-- The branch of the close token. -/
  | closeToken
  /-- The branch of the read shutdown token. -/
  | readShutdownToken
  /-- The clock, read. -/
  | now (reading : Instant)
  /-- The deadline has passed. -/
  | timeout
  /-- The branch of the gate. -/
  | gate
  /-- The raw write is ready, with a count. -/
  | accept (n : ℕ)
  /-- The raw operation is ready, with an error. -/
  | fail (text : String)
  /-- The raw read is ready, with the bytes read. -/
  | read (chunk : List UInt8)
  /-- The raw flush or shutdown is ready. -/
  | complete
  deriving DecidableEq, Repr

/-! ### One step of a call -/

def closedText : String := "socket connection is closed"

/-- The error of an `ensure` load that finds its flag set. -/
def Flag.text : Flag → String
  | .closed => closedText
  | .paused => "socket connection is paused"
  | .readShutdown => "socket receive direction is shut down"
  | .writeShutdown => "socket send direction is shut down"
  | .peerSentEof => ""

/-- The first statement of an operation: the empty-buffer shortcut, or the first load. -/
def Op.enter : Op → PC
  | .receive max => if max = 0 then .done (.ok (.data [])) else .eof false
  | .writeOnce data => if data.isEmpty then .done (.ok (.count 0)) else .ensure false .closed
  | .send data => if data.isEmpty then .done (.ok .unit) else .ensure false .closed
  | .sendTimeout data _ => if data.isEmpty then .done (.ok .unit) else .ensure false .closed
  | .flush => .ensure false .closed
  | .shutdownRead => .idle false .closed
  | .shutdownWrite => .idle false .closed
  | .close => .closing .closed false none
  | .pause => .idle false .closed
  | .resume => .idle false .closed

/-- What follows the acquisition of the gate. -/
def Op.enterGate : Op → PC
  | .receive _ => .eof true
  | .shutdownWrite => .idle true .closed
  | .close => .io
  | _ => .ensure true .closed

/-- Return: behind the gate, by way of dropping the guard. -/
def PC.finish (behindGate : Bool) (outcome : Outcome) : PC :=
  if behindGate then .unwind outcome else .done outcome

/-- What follows the checks ahead of the gate. -/
def Op.afterChecks : Op → PC
  | .sendTimeout _ _ => .deadline
  | _ => .gate

/-- What follows an `ensure` load that finds its flag clear. -/
def Op.afterEnsure (op : Op) (behindGate : Bool) : Flag → PC
  | .closed => .ensure behindGate .paused
  | .paused => .ensure behindGate op.flag
  | _ => if behindGate then .streamClosed else op.afterChecks

/-- What follows an `idle` load that finds its flag clear. -/
def Op.afterIdle (op : Op) (behindGate : Bool) (flag : Flag) : PC :=
  match op, flag with
  | .pause, _ => .store
  | .resume, _ => .store
  | _, .closed => .idle behindGate op.flag
  | .shutdownWrite, _ => if behindGate then .store else .gate
  | _, _ => .store

/-- The store of an operation that is one, and what follows it. -/
def Op.stored : Op → Option (PC × Effect)
  | .shutdownRead => some (.cancelRead, .store .readShutdown true)
  | .shutdownWrite => some (.streamClosed, .store .writeShutdown true)
  | .pause => some (.done (.ok .unit), .store .paused true)
  | .resume => some (.done (.ok .unit), .store .paused false)
  | _ => none

/-- The error of a branch that gives up on the gate. -/
def Op.giveUp {ι : Type} (sh : Shared ι) (op : Op) : Choice → Option Error
  | .closeToken =>
    if op.watchesClose && sh.closeToken then some (.msg "socket connection was closed") else none
  | .readShutdownToken =>
    if op.reads && sh.readShutdownToken then
      some (.msg "socket receive direction was shut down")
    else none
  | _ => none

/-- One stage of a full close. What follows the last stage is the error that caused it, or the
rest of `close`. -/
def pollClosing {ι : Type} (sh : Shared ι) (stage : CloseStage) (first : Bool)
    (error : Option Error) : PC × Effect :=
  match stage with
  | .closed => (.closing .paused (!sh.state.closed) error, .store .closed true)
  | .paused => (.closing .readShutdown first error, .store .paused false)
  | .readShutdown => (.closing .writeShutdown first error, .store .readShutdown true)
  | .writeShutdown =>
    (if first then .closing .closeToken first error
      else match error with
        | some e => .unwind (.error e)
        | none => .done (.ok .unit), .store .writeShutdown true)
  | .closeToken => (.closing .readShutdownToken first error, .cancelClose)
  | .readShutdownToken => (.closing .stream first error, .cancelRead)
  | .stream =>
    (match error with
      | some e => .unwind (.error e)
      | none => if sh.stream then .gate else .done (.ok .unit), .takeStream)

/-- The answer to a raw write of `send`, with `written` bytes of `data` handed over before. -/
def pollSend (data : List UInt8) (written : ℕ) : Choice → Option (PC × ℕ × Effect)
  | .accept n =>
    if n = 0 then
      some (.closing .closed false (some (.msg (s!"socket write returned zero after {written} of "
        ++ s!"{data.length} bytes; connection closed"))), written, .none)
    else if written + n ≤ data.length then
      some (if written + n < data.length then .io else .unwind (.ok .unit), written + n,
        .write ((data.drop written).take n))
    else none
  | .fail text =>
    some (.closing .closed false (some (.msg (s!"socket write failed after {written} of "
      ++ s!"{data.length} bytes; connection closed because a partial prefix may have been "
      ++ s!"written: {text}"))), written, .none)
  | _ => none

/-- The answer to a raw write of `send_timeout`: that of the raw stream, or the deadline. -/
def pollSendTimeout (data : List UInt8) (written : ℕ) : Choice → Option (PC × ℕ × Effect)
  | .accept n =>
    if n = 0 then
      some (.closing .closed false (some (.msg (s!"socket write returned zero after {written} of "
        ++ s!"{data.length} bytes; connection closed"))), written, .none)
    else if written + n ≤ data.length then
      some (if written + n < data.length then .io else .unwind (.ok .unit), written + n,
        .write ((data.drop written).take n))
    else none
  | .fail text =>
    some (.closing .closed false (some (.msg (s!"socket write failed after {written} of "
      ++ s!"{data.length} bytes; connection closed because a partial prefix may have been "
      ++ s!"written: {text}"))), written, .none)
  | .timeout =>
    some (.closing .closed false (some (.msg (s!"socket write timeout after {written} of "
      ++ s!"{data.length} bytes; connection closed because a partial prefix may have been "
      ++ "written"))), written, .none)
  | _ => none

/-- The answer of the raw stream to an operation. -/
def pollIo (op : Op) (written : ℕ) (choice : Choice) : Option (PC × ℕ × Effect) :=
  match op, choice with
  | .receive max, .read chunk =>
    if chunk.length ≤ max then
      some (if chunk.isEmpty then .storeEof else .unwind (.ok (.data chunk)), written, .none)
    else none
  | .writeOnce data, .accept n =>
    if n = 0 then
      some (.closing .closed false
        (some (.msg "socket write returned zero for a non-empty buffer; connection closed")),
        written, .none)
    else if n ≤ data.length then
      some (.unwind (.ok (.count n)), n, .write (data.take n))
    else none
  | .send data, choice => pollSend data written choice
  | .sendTimeout data _, choice => pollSendTimeout data written choice
  | .flush, .complete => some (.unwind (.ok .unit), written, .none)
  | .shutdownWrite, .complete => some (.unwind (.ok .unit), written, .none)
  | .close, .complete => some (.unwind (.ok .unit), written, .none)
  | .close, .fail text => some (.unwind (.error (.io text)), written, .none)
  | .receive _, .fail text => some (.closing .closed false (some (.io text)), written, .none)
  | .writeOnce _, .fail text => some (.closing .closed false (some (.io text)), written, .none)
  | .flush, .fail text => some (.closing .closed false (some (.io text)), written, .none)
  | .shutdownWrite, .fail text => some (.closing .closed false (some (.io text)), written, .none)
  | _, _ => none

/-- The error of a token that interrupts the raw operation. -/
def Op.interrupted {ι : Type} (sh : Shared ι) (op : Op) (written : ℕ) (choice : Choice) :
    Option Error :=
  match op, choice with
  | .send data, .closeToken =>
    if sh.closeToken then
      some (.msg (s!"socket connection closed after {written} of {data.length} bytes were "
        ++ "written; do not blindly retry the full buffer"))
    else none
  | .sendTimeout data _, .closeToken =>
    if sh.closeToken then
      some (.msg (s!"socket connection closed after {written} of {data.length} bytes were "
        ++ "written; do not blindly retry the full buffer"))
    else none
  | op, choice => op.giveUp sh choice

/-- **One step of a call.** -/
def Call.poll {ι : Type} [DecidableEq ι] (sh : Shared ι) (id : ι) (call : Call) (choice : Choice) :
    Option (Call × Effect) :=
  match call.pc, choice with
  | .start, .go => some ({ call with pc := call.op.enter }, .none)
  | .eof behindGate, .go =>
    some ({ call with
      pc := if sh.state.peerSentEof then .finish behindGate (.ok .endOfStream)
        else .ensure behindGate .closed }, .none)
  | .ensure behindGate flag, .go =>
    some ({ call with
      pc := if sh.state.load flag then .finish behindGate (.error (.msg flag.text))
        else call.op.afterEnsure behindGate flag }, .none)
  | .idle behindGate flag, .go =>
    some ({ call with
      pc := if sh.state.load flag then .finish behindGate (.ok .unit)
        else call.op.afterIdle behindGate flag }, .none)
  | .deadline, .now reading =>
    match call.op with
    | .sendTimeout _ timeout =>
      some ({ call with
        pc := if (reading.checkedAdd timeout).isSome then .gate else .panicked }, .none)
    | _ => none
  | .gate, .gate => some ({ call with pc := .gateWait }, .request)
  | .gate, choice =>
    (call.op.giveUp sh choice).map fun e => ({ call with pc := .done (.error e) }, .none)
  | .gateWait, .gate =>
    if (sh.gate call.op).holder = some id then some ({ call with pc := call.op.enterGate }, .none)
    else none
  | .gateWait, .timeout =>
    match call.op with
    | .sendTimeout _ _ =>
      some ({ call with
        pc := .done (.error (.msg "socket write timeout before any write progress")) }, .leave)
    | _ => none
  | .gateWait, choice =>
    (call.op.giveUp sh choice).map fun e => ({ call with pc := .done (.error e) }, .leave)
  | .store, .go => call.op.stored.map fun (pc, effect) => ({ call with pc }, effect)
  | .cancelRead, .go => some ({ call with pc := .done (.ok .unit) }, .cancelRead)
  | .streamClosed, .go =>
    some ({ call with
      pc := if sh.state.closed then .unwind (.error (.msg closedText)) else .stream }, .none)
  | .stream, .go =>
    some ({ call with
      pc := if sh.stream then .io else .unwind (.error (.msg closedText)) }, .none)
  | .io, choice =>
    match call.op.interrupted sh call.written choice with
    | some e => some ({ call with pc := .unwind (.error e) }, .none)
    | none => (pollIo call.op call.written choice).map fun (pc, written, effect) =>
      ({ call with pc, written }, effect)
  | .storeEof, .go =>
    some ({ call with pc := .unwind (.ok .endOfStream) }, .store .peerSentEof true)
  | .closing stage first error, .go =>
    let (pc, effect) := pollClosing sh stage first error
    some ({ call with pc }, effect)
  | .unwind outcome, .go => some ({ call with pc := .done outcome }, .leave)
  | _, _ => none

/-- The await points of a call, and what dropping it there does. -/
def Call.drop (call : Call) : Option Effect :=
  match call.pc with
  | .start => some .none
  | .gateWait => some .leave
  | .io => some .leave
  | _ => none

/-! ### One step of the connection -/

variable {ι : Type} [DecidableEq ι]

/-- Apply a change to the gate of an operation. -/
def Shared.onGate (sh : Shared ι) (op : Op) (f : FifoMutex ι → FifoMutex ι) : Shared ι :=
  if op.reads then { sh with readGate := f sh.readGate }
  else { sh with writeGate := f sh.writeGate }

omit [DecidableEq ι] in
@[simp] theorem Shared.onGate_state (sh : Shared ι) (op : Op) (f : FifoMutex ι → FifoMutex ι) :
    (sh.onGate op f).state = sh.state := by
  unfold Shared.onGate
  split <;> rfl

omit [DecidableEq ι] in
@[simp] theorem Shared.onGate_closeToken (sh : Shared ι) (op : Op) (f : FifoMutex ι → FifoMutex ι) :
    (sh.onGate op f).closeToken = sh.closeToken := by
  unfold Shared.onGate
  split <;> rfl

omit [DecidableEq ι] in
@[simp] theorem Shared.onGate_readShutdownToken (sh : Shared ι) (op : Op)
    (f : FifoMutex ι → FifoMutex ι) :
    (sh.onGate op f).readShutdownToken = sh.readShutdownToken := by
  unfold Shared.onGate
  split <;> rfl

omit [DecidableEq ι] in
@[simp] theorem Shared.onGate_stream (sh : Shared ι) (op : Op) (f : FifoMutex ι → FifoMutex ι) :
    (sh.onGate op f).stream = sh.stream := by
  unfold Shared.onGate
  split <;> rfl

omit [DecidableEq ι] in
@[simp] theorem Shared.onGate_wire (sh : Shared ι) (op : Op) (f : FifoMutex ι → FifoMutex ι) :
    (sh.onGate op f).wire = sh.wire := by
  unfold Shared.onGate
  split <;> rfl

def Shared.perform (sh : Shared ι) (id : ι) (op : Op) : Effect → Shared ι
  | .none => sh
  | .store flag value => { sh with state := sh.state.store value flag }
  | .cancelClose => { sh with closeToken := true }
  | .cancelRead => { sh with readShutdownToken := true }
  | .takeStream => { sh with stream := false }
  | .request => sh.onGate op (·.request id)
  | .leave => sh.onGate op (·.leave id)
  | .write bytes => { sh with wire := sh.wire ++ bytes }

/-- A connection and the calls on it. -/
structure Core (ι : Type) where
  shared : Shared ι := {}
  calls : ι → Option Call := fun _ => none

/-- Who moves, and how the environment answers. -/
inductive Label (ι : Type) where
  | call (id : ι) (op : Op)
  | poll (id : ι) (choice : Choice)
  | drop (id : ι)
  deriving DecidableEq, Repr

/-- **One step of the connection.** -/
def Core.step (core : Core ι) : Label ι → Option (Core ι)
  | .call id op =>
    match core.calls id with
    | none => some { core with calls := Function.update core.calls id (some { op }) }
    | some _ => none
  | .poll id choice =>
    match core.calls id with
    | none => none
    | some call =>
      (call.poll core.shared id choice).map fun (call', effect) =>
        { shared := core.shared.perform id call.op effect
          calls := Function.update core.calls id (some call') }
  | .drop id =>
    match core.calls id with
    | none => none
    | some call => call.drop.map fun effect =>
      { shared := core.shared.perform id call.op effect
        calls := Function.update core.calls id (some { call with pc := .dropped }) }

/-- A step that drops no call with bytes to hand over. -/
def KeepsWriters (core : Core ι) : Label ι → Prop
  | .drop id => ∀ call, core.calls id = some call → call.op.buffer = []
  | _ => True

/-- No call is dropped at all. -/
def Label.isDrop : Label ι → Bool
  | .drop _ => true
  | _ => false

omit [DecidableEq ι] in
theorem keepsWriters_of_not_isDrop (core : Core ι) (label : Label ι)
    (h : (!label.isDrop) = true) : KeepsWriters core label := by
  cases label with
  | drop id => exact absurd h nofun
  | _ => trivial

/-- The outcome of a call, once it is fixed. -/
def Call.outcome (call : Call) : Option Outcome :=
  match call.pc with
  | .unwind outcome => some outcome
  | .done outcome => some outcome
  | _ => none

/-- The bytes a call has handed to the raw stream. -/
def Call.handed (call : Call) : List UInt8 := call.op.buffer.take call.written

end Transport

end Taunicorn
