import Taunicorn.Lib.FifoMutex
import Taunicorn.Lib.Machine
import Taunicorn.Security.Handshake

/-!
# Secure sessions in Python

`SecureSession` puts a token and two gates around a native secure connection. A call of `send` or
`receive` waits for the gate of its direction, arms a guard that cancels the token when it is
dropped, and runs the native call; only a call that returns its result disarms the guard. Whoever
waits looks at the token first.

One poll of a call is one step, and so is one drop. A poll goes on from await point to await point
until something is pending, and how far it gets is in its label: a list of answers to the
acquisitions of the gate and of the native lock, and to the operations on the connection. So a
paused, closed or failing connection is an answer. The native lock is behind the gate and never
contended, and acquiring it takes no more than a ready answer.

The conversion of a plaintext to Python fails if the answers left behind the native call say so.

## Main results

* `Moved.of_step` — a step is a sequence of moves
* `Gates.moved`, `Gates.unique` — one call at a time behind a gate
* `cancel_of_ended`, `onlyFailures_of_runs` — the first failure cancels the token, and nothing
  follows it
-/

namespace Taunicorn

namespace Secure

open Security StreamProg FifoMutex

/-! ### The machine -/

/-- `MAX_PLAINTEXT_SIZE`. -/
def maxPlaintextSize : ℕ := 64 * 1024 * 1024 - 25

/-- `closed_error`. -/
def closedError : Error :=
  .msg "secure session is closed or was cancelled; create a new connection"

/-- The methods behind a gate. -/
inductive Op where
  | send (plaintext : List UInt8)
  | receive
  deriving DecidableEq

/-- A call of `send` goes through the gate of the senders. -/
def Op.sends : Op → Bool
  | .send _ => true
  | .receive => false

/-- The check of `send` before there is a future. -/
def Op.refused : Op → Bool
  | .send plaintext => plaintext.length > maxPlaintextSize
  | .receive => false

/-- Where a call stands. -/
inductive PC where
  /-- Not polled yet. -/
  | start
  /-- In the queue of its gate, or given the gate and not polled since. -/
  | gate
  /-- Behind the gate, with the guard armed, at the lock of the native call. -/
  | lock
  /-- In the native call, with the rest of its program. -/
  | sending (rest : Prog DirectionState)
  | receiving (rest : Prog (List UInt8 × DirectionState))
  | done (outcome : Except Error (Option (List UInt8)))
  | dropped

structure Call where
  op : Op
  pc : PC := .start

/-- What a session does. -/
inductive Entry (ι : Type) where
  /-- A primitive was called. -/
  | called (event : Event)
  /-- An operation on the connection was polled, and may have handed over bytes. -/
  | touched
  /-- A call has returned its result, and committed the sequence number given. -/
  | sent (id : ι) (sequence : UInt64)
  | received (id : ι) (sequence : UInt64)
  /-- A call has failed or was dropped behind its gate. -/
  | ended (id : ι)
  deriving DecidableEq

/-- `SecureSession`, the calls on it, and the ghost history. -/
structure SecureSession (ι : Type) where
  inner : SecureConnection
  /-- `inner.connection().is_closed()`. -/
  connectionClosed : Bool := false
  /-- The token. -/
  cancel : Bool := false
  sendGate : FifoMutex ι := {}
  receiveGate : FifoMutex ι := {}
  calls : ι → Option Call := fun _ => none
  log : List (Entry ι) := []

variable {ι : Type}

def SecureSession.isClosed (s : SecureSession ι) : Bool := s.cancel || s.connectionClosed

/-- The gate of a direction. -/
def SecureSession.gate (s : SecureSession ι) : Bool → FifoMutex ι
  | true => s.sendGate
  | false => s.receiveGate

def SecureSession.setGate (s : SecureSession ι) (m : FifoMutex ι) : Bool → SecureSession ι
  | true => { s with sendGate := m }
  | false => { s with receiveGate := m }

def SecureSession.note (s : SecureSession ι) (entries : List (Entry ι)) : SecureSession ι :=
  { s with log := s.log ++ entries }

/-- What one poll of a native call does. -/
def entries {α : Type} (r : Resumed Error Event α) : List (Entry ι) :=
  r.events.map .called ++ if r.touched then [.touched] else []

variable [DecidableEq ι]

def SecureSession.set (s : SecureSession ι) (id : ι) (op : Op) (pc : PC) : SecureSession ι :=
  { s with calls := Function.update s.calls id (some ⟨op, pc⟩) }

/-- A call returns, or is dropped, and leaves its gate. -/
def SecureSession.leave (s : SecureSession ι) (id : ι) (op : Op) (pc : PC) : SecureSession ι :=
  (s.set id op pc).setGate ((s.gate op.sends).leave id) op.sends

/-- The armed guard is dropped, and then the gate. -/
def SecureSession.interrupt (s : SecureSession ι) (id : ι) (op : Op) (pc : PC) : SecureSession ι :=
  ({ s with cancel := true }.note [.ended id]).leave id op pc

/-- One poll of the native `send`, and what follows it. -/
def SecureSession.runSend (s : SecureSession ι) (id : ι) (op : Op) (rest : Prog DirectionState)
    (answers : List (Answer Error)) : SecureSession ι :=
  let r := rest.resume answers
  let noted := s.note (entries r)
  match r.rest with
  | .pure state =>
    { noted.note [.sent id s.inner.sendState.sequence] with
      inner := s.inner.withSequences s.inner.receiveState.sequence state.sequence
    }.leave id op (.done (.ok none))
  | .fail e => noted.interrupt id op (.done (.error e))
  | rest => noted.set id op (.sending rest)

/-- One poll of the native `receive`, and what follows it. -/
def SecureSession.runReceive (s : SecureSession ι) (id : ι) (op : Op)
    (rest : Prog (List UInt8 × DirectionState)) (answers : List (Answer Error)) :
    SecureSession ι :=
  let r := rest.resume answers
  let noted := s.note (entries r)
  match r.rest with
  | .pure (plaintext, state) =>
    let committed := { noted with
      inner := s.inner.withSequences state.sequence s.inner.sendState.sequence }
    match r.answers with
    | .failed e :: _ => committed.interrupt id op (.done (.error e))
    | _ =>
      (committed.note [.received id s.inner.receiveState.sequence]).leave id op
        (.done (.ok (some plaintext)))
  | .fail e => noted.interrupt id op (.done (.error e))
  | rest => noted.set id op (.receiving rest)

variable (cr : Crypto)

/-- A call at the native lock. -/
def SecureSession.lockState (s : SecureSession ι) (id : ι) (op : Op) :
    List (Answer Error) → SecureSession ι
  | .ready :: answers =>
    match op with
    | .send plaintext =>
      s.runSend id op (Security.send cr s.inner.transcriptHash s.inner.sendState plaintext) answers
    | .receive =>
      s.runReceive id op (Security.receive cr s.inner.transcriptHash s.inner.receiveState) answers
  | _ => s

/-- A call at its gate. -/
def SecureSession.enter (s : SecureSession ι) (id : ι) (op : Op) :
    List (Answer Error) → SecureSession ι
  | .ready :: answers =>
    if (s.gate op.sends).holder = some id then
      if s.isClosed then s.leave id op (.done (.error closedError))
      else (s.set id op .lock).lockState cr id op answers
    else s
  | _ => s

/-- One poll of a call. Every `select!` is biased towards the token. -/
def SecureSession.poll (s : SecureSession ι) (id : ι) (call : Call)
    (answers : List (Answer Error)) : Option (SecureSession ι) :=
  match call.pc with
  | .start =>
    some (if s.cancel then s.set id call.op (.done (.error closedError))
      else ((s.set id call.op .gate).setGate ((s.gate call.op.sends).request id)
        call.op.sends).enter cr id call.op answers)
  | .gate =>
    some (if s.cancel then s.leave id call.op (.done (.error closedError))
      else s.enter cr id call.op answers)
  | .lock =>
    some (if s.cancel then s.interrupt id call.op (.done (.error closedError))
      else s.lockState cr id call.op answers)
  | .sending rest =>
    some (if s.cancel then s.interrupt id call.op (.done (.error closedError))
      else s.runSend id call.op rest answers)
  | .receiving rest =>
    some (if s.cancel then s.interrupt id call.op (.done (.error closedError))
      else s.runReceive id call.op rest answers)
  | .done _ => none
  | .dropped => none

/-- Drop a call at one of its await points. -/
def SecureSession.drop (s : SecureSession ι) (id : ι) (call : Call) : Option (SecureSession ι) :=
  match call.pc with
  | .start => some (s.set id call.op .dropped)
  | .gate => some (s.leave id call.op .dropped)
  | .lock => some (s.interrupt id call.op .dropped)
  | .sending _ => some (s.interrupt id call.op .dropped)
  | .receiving _ => some (s.interrupt id call.op .dropped)
  | .done _ => none
  | .dropped => none

/-- Who moves. -/
inductive Label (ι : Type) where
  | call (id : ι) (op : Op)
  | poll (id : ι) (answers : List (Answer Error))
  | drop (id : ι)
  /-- `close`, `abort`, the observer of a cancelled future, or the drop of the session. -/
  | cancel
  /-- The connection is closed. -/
  | closeConnection

/-- **One step of a session.** -/
def SecureSession.step (s : SecureSession ι) : Label ι → Option (SecureSession ι)
  | .call id op =>
    match s.calls id with
    | none =>
      some (s.set id op
        (if op.refused then .done (.error (.msg "frame exceeds maximum size")) else .start))
    | some _ => none
  | .poll id answers => (s.calls id).bind fun call => s.poll cr id call answers
  | .drop id => (s.calls id).bind fun call => s.drop id call
  | .cancel => some { s with cancel := true }
  | .closeConnection => some { s with connectionClosed := true }

omit [DecidableEq ι] in
/-- The session around a connection. -/
def SecureSession.new (inner : SecureConnection) : SecureSession ι := { inner }

omit [DecidableEq ι] in
/-- The primitive that was called. -/
def Entry.event : Entry ι → Option Event
  | .called event => some event
  | _ => none

/-- The primitives called. -/
def SecureSession.events (s : SecureSession ι) : List Event := s.log.filterMap Entry.event

/-! ### Moves -/

/-- The guard is armed. -/
def PC.Guarded : PC → Prop
  | .lock => True
  | .sending _ => True
  | .receiving _ => True
  | _ => False

/-- The call has returned no result. -/
def PC.Over : PC → Prop
  | .done (.error _) => True
  | .dropped => True
  | _ => False

/-- **What the steps are made of.** A poll is several of these. -/
inductive Moved (s : SecureSession ι) : SecureSession ι → Prop
  | called (id : ι) (op : Op) (pc : PC) : s.calls id = none →
      pc = .start ∨ pc.Over → Moved s (s.set id op pc)
  | turnedAway (id : ι) (op : Op) (pc : PC) : s.calls id = some ⟨op, .start⟩ → pc.Over →
      Moved s (s.set id op pc)
  | requested (id : ι) (op : Op) : s.calls id = some ⟨op, .start⟩ → s.cancel = false →
      Moved s ((s.set id op .gate).setGate ((s.gate op.sends).request id) op.sends)
  | withdrew (id : ι) (op : Op) (pc : PC) : s.calls id = some ⟨op, .gate⟩ → pc.Over →
      Moved s (s.leave id op pc)
  | entered (id : ι) (op : Op) : s.calls id = some ⟨op, .gate⟩ → s.cancel = false →
      (s.gate op.sends).holder = some id → Moved s (s.set id op .lock)
  | sends (id : ι) (op : Op) (rest : Prog DirectionState) (answers : List (Answer Error)) :
      s.cancel = false → s.calls id = some ⟨op, .sending rest⟩ ∨
        (s.calls id = some ⟨op, .lock⟩ ∧ ∃ plaintext, op = .send plaintext ∧
          rest = Security.send cr s.inner.transcriptHash s.inner.sendState plaintext) →
      Moved s (s.runSend id op rest answers)
  | receives (id : ι) (op : Op) (rest : Prog (List UInt8 × DirectionState))
      (answers : List (Answer Error)) : s.cancel = false →
      s.calls id = some ⟨op, .receiving rest⟩ ∨ (s.calls id = some ⟨op, .lock⟩ ∧
        op = .receive ∧ rest = Security.receive cr s.inner.transcriptHash s.inner.receiveState) →
      Moved s (s.runReceive id op rest answers)
  | interrupted (id : ι) (op : Op) (pc pc' : PC) : s.calls id = some ⟨op, pc⟩ → pc.Guarded →
      pc'.Over → Moved s (s.interrupt id op pc')
  | cancelled : Moved s { s with cancel := true }
  | connectionClosed : Moved s { s with connectionClosed := true }

variable {cr} {s s' : SecureSession ι} {id i : ι} {op : Op} {call : Call} {label : Label ι}
  {answers : List (Answer Error)}

/-- The moves of one step: some up to the native lock, which say nothing and change nothing of the
connection, and at most one from there. -/
inductive Moves (cr : Crypto) : SecureSession ι → SecureSession ι → Prop
  | refl {s : SecureSession ι} : Moves cr s s
  | single {s s' : SecureSession ι} : Moved cr s s' → Moves cr s s'
  | head {s mid s' : SecureSession ι} : Moved cr s mid → mid.log = s.log → mid.inner = s.inner →
      mid.cancel = s.cancel → Moves cr mid s' → Moves cr s s'

@[simp] theorem set_calls_self (s : SecureSession ι) (id : ι) (op : Op) (pc : PC) :
    (s.set id op pc).calls id = some ⟨op, pc⟩ := Function.update_self ..

omit [DecidableEq ι] in
@[simp] theorem setGate_calls (s : SecureSession ι) (m : FifoMutex ι) (b : Bool) :
    (s.setGate m b).calls = s.calls := by cases b <;> rfl

omit [DecidableEq ι] in
@[simp] theorem setGate_cancel (s : SecureSession ι) (m : FifoMutex ι) (b : Bool) :
    (s.setGate m b).cancel = s.cancel := by cases b <;> rfl

omit [DecidableEq ι] in
@[simp] theorem setGate_log (s : SecureSession ι) (m : FifoMutex ι) (b : Bool) :
    (s.setGate m b).log = s.log := by cases b <;> rfl

omit [DecidableEq ι] in
@[simp] theorem setGate_inner (s : SecureSession ι) (m : FifoMutex ι) (b : Bool) :
    (s.setGate m b).inner = s.inner := by cases b <;> rfl

omit [DecidableEq ι] in
@[simp] theorem gate_setGate (s : SecureSession ι) (m : FifoMutex ι) (b : Bool) :
    (s.setGate m b).gate b = m := by cases b <;> rfl

omit [DecidableEq ι] in
@[simp] theorem gate_setGate_not (s : SecureSession ι) (m : FifoMutex ι) (b : Bool) :
    (s.setGate m b).gate (!b) = s.gate (!b) := by cases b <;> rfl

/-! A call that leaves touches nothing but its gate. -/

@[simp] theorem leave_log (s : SecureSession ι) (id : ι) (op : Op) (pc : PC) :
    (s.leave id op pc).log = s.log := setGate_log ..

@[simp] theorem leave_cancel (s : SecureSession ι) (id : ι) (op : Op) (pc : PC) :
    (s.leave id op pc).cancel = s.cancel := setGate_cancel ..

@[simp] theorem leave_inner (s : SecureSession ι) (id : ι) (op : Op) (pc : PC) :
    (s.leave id op pc).inner = s.inner := setGate_inner ..

@[simp] theorem leave_calls (s : SecureSession ι) (id : ι) (op : Op) (pc : PC) :
    (s.leave id op pc).calls = Function.update s.calls id (some ⟨op, pc⟩) := setGate_calls ..

@[simp] theorem interrupt_log (s : SecureSession ι) (id : ι) (op : Op) (pc : PC) :
    (s.interrupt id op pc).log = s.log ++ [.ended id] := leave_log ..

@[simp] theorem interrupt_cancel (s : SecureSession ι) (id : ι) (op : Op) (pc : PC) :
    (s.interrupt id op pc).cancel = true := leave_cancel ..

@[simp] theorem interrupt_inner (s : SecureSession ι) (id : ι) (op : Op) (pc : PC) :
    (s.interrupt id op pc).inner = s.inner := leave_inner ..

@[simp] theorem interrupt_calls (s : SecureSession ι) (id : ι) (op : Op) (pc : PC) :
    (s.interrupt id op pc).calls = Function.update s.calls id (some ⟨op, pc⟩) := leave_calls ..

theorem moves_lockState (hcancel : s.cancel = false) (hcall : s.calls id = some ⟨op, .lock⟩) :
    Moves cr s (s.lockState cr id op answers) := by
  unfold SecureSession.lockState
  split
  · split
    · next plaintext =>
      exact .single (.sends id _ _ _ hcancel (Or.inr ⟨hcall, plaintext, rfl, rfl⟩))
    · exact .single (.receives id _ _ _ hcancel (Or.inr ⟨hcall, rfl, rfl⟩))
  · exact .refl

theorem moves_enter (hcancel : s.cancel = false) (hcall : s.calls id = some ⟨op, .gate⟩) :
    Moves cr s (s.enter cr id op answers) := by
  unfold SecureSession.enter
  split
  · split_ifs with hholder hclosed
    · exact .single (.withdrew id op _ hcall trivial)
    · exact .head (.entered id op hcall hcancel hholder) rfl rfl rfl
        (moves_lockState hcancel (set_calls_self s id op .lock))
    · exact .refl
  · exact .refl

/-- **A step is a sequence of moves.** -/
theorem Moved.of_step (h : s.step cr label = some s') : Moves cr s s' := by
  cases label with
  | call id op =>
    simp only [SecureSession.step] at h
    split at h
    · next hnone =>
      obtain rfl := Option.some.inj h
      refine .single (.called id op _ hnone ?_)
      split
      · exact Or.inr trivial
      · exact Or.inl rfl
    · exact absurd h (Option.some_ne_none _).symm
  | poll id answers =>
    obtain ⟨⟨op, pc⟩, hcall, hpoll⟩ := Option.bind_eq_some_iff.mp h
    cases hcancel : s.cancel with
    | true =>
      cases pc with
      | start =>
        obtain rfl := Option.some.inj hpoll
        rw [if_pos hcancel]
        exact .single (.turnedAway id op _ hcall trivial)
      | gate =>
        obtain rfl := Option.some.inj hpoll
        rw [if_pos hcancel]
        exact .single (.withdrew id op _ hcall trivial)
      | lock =>
        obtain rfl := Option.some.inj hpoll
        rw [if_pos hcancel]
        exact .single (.interrupted id op _ _ hcall trivial trivial)
      | sending rest =>
        obtain rfl := Option.some.inj hpoll
        rw [if_pos hcancel]
        exact .single (.interrupted id op _ _ hcall trivial trivial)
      | receiving rest =>
        obtain rfl := Option.some.inj hpoll
        rw [if_pos hcancel]
        exact .single (.interrupted id op _ _ hcall trivial trivial)
      | done outcome => exact absurd hpoll (Option.some_ne_none _).symm
      | dropped => exact absurd hpoll (Option.some_ne_none _).symm
    | false =>
      have hopen : ¬s.cancel = true := Bool.eq_false_iff.mp hcancel
      cases pc with
      | start =>
        obtain rfl := Option.some.inj hpoll
        rw [if_neg hopen]
        refine .head (.requested id op hcall hcancel) (setGate_log ..) (setGate_inner ..)
          (setGate_cancel ..) (moves_enter ?_ ?_)
        · rw [setGate_cancel]
          exact hcancel
        · rw [setGate_calls, set_calls_self]
      | gate =>
        obtain rfl := Option.some.inj hpoll
        rw [if_neg hopen]
        exact moves_enter hcancel hcall
      | lock =>
        obtain rfl := Option.some.inj hpoll
        rw [if_neg hopen]
        exact moves_lockState hcancel hcall
      | sending rest =>
        obtain rfl := Option.some.inj hpoll
        rw [if_neg hopen]
        exact .single (.sends id op rest answers hcancel (Or.inl hcall))
      | receiving rest =>
        obtain rfl := Option.some.inj hpoll
        rw [if_neg hopen]
        exact .single (.receives id op rest answers hcancel (Or.inl hcall))
      | done outcome => exact absurd hpoll (Option.some_ne_none _).symm
      | dropped => exact absurd hpoll (Option.some_ne_none _).symm
  | drop id =>
    obtain ⟨⟨op, pc⟩, hcall, hdrop⟩ := Option.bind_eq_some_iff.mp h
    cases pc with
    | start =>
      obtain rfl := Option.some.inj hdrop
      exact .single (.turnedAway id op _ hcall trivial)
    | gate =>
      obtain rfl := Option.some.inj hdrop
      exact .single (.withdrew id op _ hcall trivial)
    | done outcome => exact absurd hdrop (Option.some_ne_none _).symm
    | dropped => exact absurd hdrop (Option.some_ne_none _).symm
    | _ =>
      obtain rfl := Option.some.inj hdrop
      exact .single (.interrupted id op _ _ hcall trivial trivial)
  | cancel =>
    obtain rfl := Option.some.inj h
    exact .single .cancelled
  | closeConnection =>
    obtain rfl := Option.some.inj h
    exact .single .connectionClosed

/-- What every move keeps is kept by every step. -/
theorem Moves.keeps (h : Moves cr s s') (P : SecureSession ι → Prop)
    (hmoved : ∀ s s', P s → Moved cr s s' → P s') (hs : P s) : P s' := by
  induction h with
  | refl => exact hs
  | single hmove => exact hmoved _ _ hs hmove
  | head hmove _ _ _ _ ih => exact ih (hmoved _ _ hs hmove)

/-! ### The gates -/

/-- Where a call stands at its gate. -/
def PC.place : PC → Place
  | .start => .away
  | .gate => .waiting
  | .lock => .holding
  | .sending _ => .holding
  | .receiving _ => .holding
  | .done _ => .left
  | .dropped => .left

omit [DecidableEq ι] in
/-- Where a call stands at one of the gates. -/
def SecureSession.place (s : SecureSession ι) (b : Bool) (id : ι) : Place :=
  match s.calls id with
  | some ⟨op, pc⟩ => if op.sends = b then pc.place else .away
  | none => .away

omit [DecidableEq ι] in
/-- The gates know who stands where. -/
def Gates (s : SecureSession ι) : Prop :=
  ∀ b, (s.gate b).Once ∧ ∀ i, (s.gate b).At i (s.place b i)

variable {pc pc' : PC} {b : Bool} {m : FifoMutex ι}

omit [DecidableEq ι] in
theorem place_eq (h : s.calls id = some ⟨op, pc⟩) : s.place op.sends id = pc.place := by
  simp only [SecureSession.place, h, if_true]

omit [DecidableEq ι] in
theorem place_not (h : s.calls id = some ⟨op, pc⟩) : s.place (!op.sends) id = .away := by
  have hne : ¬op.sends = !op.sends := by cases op.sends <;> decide
  simp only [SecureSession.place, h, if_neg hne]

omit [DecidableEq ι] in
theorem place_none (h : s.calls id = none) (b : Bool) : s.place b id = .away := by
  simp only [SecureSession.place, h]

theorem PC.Over.place (h : pc.Over) : pc.place = .left := by
  cases pc with
  | done outcome => rfl
  | dropped => rfl
  | _ => exact h.elim

theorem PC.Guarded.place (h : pc.Guarded) : pc.place = .holding := by
  cases pc with
  | lock => rfl
  | sending rest => rfl
  | receiving rest => rfl
  | _ => exact h.elim

/-- A call moves at its gate. -/
theorem Gates.setGate (h : Gates s) (hother : s.place (!op.sends) id = .away)
    (hmove : (s.gate op.sends).Move id (s.place op.sends id) m pc.place) :
    Gates ((s.set id op pc).setGate m op.sends) := by
  have hself : ((s.set id op pc).setGate m op.sends).calls id = some ⟨op, pc⟩ := by
    rw [setGate_calls, set_calls_self]
  have hne : ∀ b i, i ≠ id → ((s.set id op pc).setGate m op.sends).place b i = s.place b i := by
    intro b i hi
    simp only [SecureSession.place, setGate_calls]
    rw [show (s.set id op pc).calls i = s.calls i from Function.update_of_ne hi ..]
  have hboth : ∀ b, b = op.sends ∨ b = !op.sends := by
    intro b
    cases b <;> cases op.sends <;> simp
  intro b
  rcases hboth b with rfl | rfl
  · rw [gate_setGate]
    refine ⟨hmove.once (h _).1 ((h _).2 id), fun i => ?_⟩
    by_cases hi : i = id
    · subst hi
      rw [place_eq hself]
      exact hmove.at_self (h _).1 ((h _).2 i)
    · rw [hne _ i hi]
      exact hmove.at_of_ne (h _).1 ((h _).2 i) hi
  · rw [gate_setGate_not]
    refine ⟨(h _).1, fun i => ?_⟩
    by_cases hi : i = id
    · subst hi
      rw [place_not hself, ← hother]
      exact (h _).2 i
    · rw [hne _ i hi]
      exact (h _).2 i

omit [DecidableEq ι] in
theorem setGate_gate (s : SecureSession ι) (b : Bool) : s.setGate (s.gate b) b = s := by
  cases b <;> rfl

/-- A call stays at its gate. -/
theorem Gates.set (h : Gates s) (hother : s.place (!op.sends) id = .away)
    (hmove : (s.gate op.sends).Move id (s.place op.sends id) (s.gate op.sends) pc.place) :
    Gates (s.set id op pc) := by
  have hset := h.setGate hother hmove
  rwa [show s.gate op.sends = (s.set id op pc).gate op.sends from rfl, setGate_gate] at hset

theorem Gates.leave (h : Gates s) (hcall : s.calls id = some ⟨op, pc⟩)
    (hleft : pc'.place = .left) : Gates (s.leave id op pc') := by
  refine h.setGate (place_not hcall) ?_
  rw [hleft]
  exact .leave _

omit [DecidableEq ι] in
/-- **One call at a time** is behind a gate. -/
theorem Gates.unique {j : ι} {op' : Op} (h : Gates s) (hi : s.calls i = some ⟨op, pc⟩)
    (hj : s.calls j = some ⟨op', pc'⟩) (hsame : op.sends = op'.sends)
    (hpc : pc.place = .holding) (hpc' : pc'.place = .holding) : i = j := by
  have hati := (h op.sends).2 i
  have hatj := (h op.sends).2 j
  rw [place_eq hi, hpc] at hati
  rw [hsame, place_eq hj, hpc', ← hsame] at hatj
  exact Option.some.inj (hati.symm.trans hatj)

/-! ### One poll of a native call -/

omit [DecidableEq ι] in
theorem events_note (s : SecureSession ι) (l : List (Entry ι)) :
    (s.note l).events = s.events ++ (SecureSession.note { s with log := [] } l).events := by
  simp only [SecureSession.events, SecureSession.note, List.filterMap_append, List.nil_append]

omit [DecidableEq ι] in
theorem events_note_entries {α : Type} (s : SecureSession ι) (r : Resumed Error Event α) :
    (s.note (entries r)).events = s.events ++ r.events := by
  rw [events_note]
  simp only [SecureSession.events, SecureSession.note, entries, List.nil_append,
    List.filterMap_append, List.filterMap_map]
  have hcalled : r.events.filterMap (Entry.event ∘ (Entry.called : Event → Entry ι)) = r.events :=
    List.filterMap_some
  rw [hcalled]
  split <;> simp [Entry.event]

omit [DecidableEq ι] in
theorem events_note_silent (s : SecureSession ι) (l : List (Entry ι))
    (hl : (SecureSession.note { s with log := [] } l).events = []) :
    (s.note l).events = s.events := by
  rw [events_note, hl, List.append_nil]

@[simp] theorem leave_events (s : SecureSession ι) (id : ι) (op : Op) (pc : PC) :
    (s.leave id op pc).events = s.events := by
  rw [SecureSession.events, leave_log, SecureSession.events]

@[simp] theorem interrupt_events (s : SecureSession ι) (id : ι) (op : Op) (pc : PC) :
    (s.interrupt id op pc).events = s.events :=
  (leave_events ..).trans (events_note_silent _ _ rfl)

theorem runSend_cases (s : SecureSession ι) (id : ι) (op : Op) (rest : Prog DirectionState)
    (answers : List (Answer Error)) :
    (∃ state, (rest.resume answers).rest = .pure state ∧ s.runSend id op rest answers =
        ({ (s.note (entries (rest.resume answers))).note [.sent id s.inner.sendState.sequence] with
          inner := s.inner.withSequences s.inner.receiveState.sequence state.sequence
        } : SecureSession ι).leave id op (.done (.ok none))) ∨
      (∃ e, (rest.resume answers).rest = .fail e ∧ s.runSend id op rest answers =
        (s.note (entries (rest.resume answers))).interrupt id op (.done (.error e))) ∨
      ((rest.resume answers).rest.Suspended ∧ s.runSend id op rest answers =
        (s.note (entries (rest.resume answers))).set id op
          (.sending (rest.resume answers).rest)) := by
  have hresting := resume_resting rest answers
  unfold SecureSession.runSend
  dsimp only
  generalize rest.resume answers = r at hresting ⊢
  obtain ⟨rest, answers, events, touched⟩ := r
  cases rest with
  | pure state => exact Or.inl ⟨state, rfl, rfl⟩
  | fail e => exact Or.inr (Or.inl ⟨e, rfl, rfl⟩)
  | receive max next => exact Or.inr (Or.inr ⟨trivial, rfl⟩)
  | send bytes next => exact Or.inr (Or.inr ⟨trivial, rfl⟩)
  | note event next => exact hresting.elim

theorem runReceive_cases (s : SecureSession ι) (id : ι) (op : Op)
    (rest : Prog (List UInt8 × DirectionState)) (answers : List (Answer Error)) :
    (∃ plaintext state, (rest.resume answers).rest = .pure (plaintext, state) ∧
      (s.runReceive id op rest answers =
        (({ s.note (entries (rest.resume answers)) with
          inner := s.inner.withSequences state.sequence s.inner.sendState.sequence
        } : SecureSession ι).note [.received id s.inner.receiveState.sequence]).leave id op
          (.done (.ok (some plaintext))) ∨
      ∃ e, s.runReceive id op rest answers =
        ({ s.note (entries (rest.resume answers)) with
          inner := s.inner.withSequences state.sequence s.inner.sendState.sequence
        } : SecureSession ι).interrupt id op (.done (.error e)))) ∨
      (∃ e, (rest.resume answers).rest = .fail e ∧ s.runReceive id op rest answers =
        (s.note (entries (rest.resume answers))).interrupt id op (.done (.error e))) ∨
      ((rest.resume answers).rest.Suspended ∧ s.runReceive id op rest answers =
        (s.note (entries (rest.resume answers))).set id op
          (.receiving (rest.resume answers).rest)) := by
  have hresting := resume_resting rest answers
  unfold SecureSession.runReceive
  dsimp only
  generalize rest.resume answers = r at hresting ⊢
  obtain ⟨rest, answers, events, touched⟩ := r
  cases rest with
  | pure result =>
    refine Or.inl ⟨result.1, result.2, rfl, ?_⟩
    dsimp only
    split
    · exact Or.inr ⟨_, rfl⟩
    · exact Or.inl rfl
  | fail e => exact Or.inr (Or.inl ⟨e, rfl, rfl⟩)
  | receive max next => exact Or.inr (Or.inr ⟨trivial, rfl⟩)
  | send bytes next => exact Or.inr (Or.inr ⟨trivial, rfl⟩)
  | note event next => exact hresting.elim

theorem Gates.stay (h : Gates s) (hcall : s.calls id = some ⟨op, pc⟩)
    (hsame : pc'.place = pc.place) : Gates (s.set id op pc') := by
  refine h.set (place_not hcall) ?_
  rw [place_eq hcall, hsame]
  exact .stay _

theorem Gates.interrupt (h : Gates s) (hcall : s.calls id = some ⟨op, pc⟩)
    (hleft : pc'.place = .left) : Gates (s.interrupt id op pc') := by
  refine Gates.leave ?_ hcall hleft
  exact h

/-- **Every move is one at its gate.** -/
theorem Gates.moved (h : Gates s) (hmoved : Moved cr s s') : Gates s' := by
  cases hmoved with
  | called id op pc hnone hpc =>
    refine h.set (place_none hnone _) ?_
    rw [place_none hnone]
    rcases hpc with rfl | hover
    · exact .stay _
    · rw [hover.place]
      exact .giveUp
  | turnedAway id op pc hcall hover =>
    refine h.set (place_not hcall) ?_
    rw [place_eq hcall, hover.place]
    exact .giveUp
  | requested id op hcall _ =>
    refine h.setGate (place_not hcall) ?_
    rw [place_eq hcall]
    exact .request
  | withdrew id op pc hcall hover => exact h.leave hcall hover.place
  | entered id op hcall _ hholder =>
    refine h.set (place_not hcall) ?_
    rw [place_eq hcall]
    exact .granted hholder
  | sends id op rest answers _ hcall =>
    obtain ⟨pc, hcall, hpc⟩ : ∃ pc, s.calls id = some ⟨op, pc⟩ ∧ pc.place = .holding := by
      rcases hcall with hcall | ⟨hcall, -⟩
      · exact ⟨_, hcall, rfl⟩
      · exact ⟨_, hcall, rfl⟩
    have hnoted : Gates (s.note (entries (rest.resume answers))) := h
    rcases runSend_cases s id op rest answers with ⟨state, -, heq⟩ | ⟨e, -, heq⟩ | ⟨-, heq⟩
    · rw [heq]
      refine Gates.leave ?_ hcall rfl
      exact h
    · rw [heq]
      exact hnoted.interrupt hcall rfl
    · rw [heq]
      exact hnoted.stay hcall hpc.symm
  | receives id op rest answers _ hcall =>
    obtain ⟨pc, hcall, hpc⟩ : ∃ pc, s.calls id = some ⟨op, pc⟩ ∧ pc.place = .holding := by
      rcases hcall with hcall | ⟨hcall, -⟩
      · exact ⟨_, hcall, rfl⟩
      · exact ⟨_, hcall, rfl⟩
    have hnoted : Gates (s.note (entries (rest.resume answers))) := h
    rcases runReceive_cases s id op rest answers with
      ⟨plaintext, state, -, heq | ⟨e, heq⟩⟩ | ⟨e, -, heq⟩ | ⟨-, heq⟩
    · rw [heq]
      refine Gates.leave ?_ hcall rfl
      exact h
    · rw [heq]
      refine Gates.interrupt ?_ hcall rfl
      exact h
    · rw [heq]
      exact hnoted.interrupt hcall rfl
    · rw [heq]
      exact hnoted.stay hcall hpc.symm
  | interrupted id op pc pc' hcall _ hover => exact h.interrupt hcall hover.place
  | cancelled => exact h
  | connectionClosed => exact h

/-- What a move writes is one call that has not returned. -/
theorem Moved.writes (h : Moved cr s s') : s'.calls = s.calls ∨
    ∃ id call, s'.calls = Function.update s.calls id (some call) ∧
      ∀ op outcome, s.calls id ≠ some ⟨op, .done outcome⟩ := by
  have hof : ∀ {id : ι} {op : Op} {pc : PC}, s.calls id = some ⟨op, pc⟩ →
      (∀ outcome, pc ≠ .done outcome) → ∀ op outcome, s.calls id ≠ some ⟨op, .done outcome⟩ := by
    intro id op pc hcall hpc op' outcome hdone
    exact hpc outcome (Call.mk.inj (Option.some.inj (hcall.symm.trans hdone))).2
  cases h with
  | called id op pc hnone _ =>
    refine Or.inr ⟨id, _, rfl, fun op' outcome hdone => ?_⟩
    exact absurd (hnone.symm.trans hdone).symm (Option.some_ne_none _)
  | turnedAway id op pc hcall _ => exact Or.inr ⟨id, _, rfl, hof hcall (by simp)⟩
  | requested id op hcall _ => exact Or.inr ⟨id, _, setGate_calls .., hof hcall (by simp)⟩
  | withdrew id op pc hcall _ => exact Or.inr ⟨id, _, leave_calls .., hof hcall (by simp)⟩
  | entered id op hcall _ _ => exact Or.inr ⟨id, _, rfl, hof hcall (by simp)⟩
  | sends id op rest answers _ hcall =>
    have hopen : ∀ op outcome, s.calls id ≠ some ⟨op, .done outcome⟩ := by
      rcases hcall with hcall | ⟨hcall, -⟩
      · exact hof hcall (by simp)
      · exact hof hcall (by simp)
    rcases runSend_cases s id op rest answers with ⟨state, -, heq⟩ | ⟨e, -, heq⟩ | ⟨-, heq⟩
    · rw [heq]
      exact Or.inr ⟨id, _, leave_calls .., hopen⟩
    · rw [heq]
      exact Or.inr ⟨id, _, interrupt_calls .., hopen⟩
    · rw [heq]
      exact Or.inr ⟨id, _, rfl, hopen⟩
  | receives id op rest answers _ hcall =>
    have hopen : ∀ op outcome, s.calls id ≠ some ⟨op, .done outcome⟩ := by
      rcases hcall with hcall | ⟨hcall, -⟩
      · exact hof hcall (by simp)
      · exact hof hcall (by simp)
    rcases runReceive_cases s id op rest answers with
      ⟨plaintext, state, -, heq | ⟨e, heq⟩⟩ | ⟨e, -, heq⟩ | ⟨-, heq⟩
    · rw [heq]
      exact Or.inr ⟨id, _, leave_calls .., hopen⟩
    · rw [heq]
      exact Or.inr ⟨id, _, interrupt_calls .., hopen⟩
    · rw [heq]
      exact Or.inr ⟨id, _, interrupt_calls .., hopen⟩
    · rw [heq]
      exact Or.inr ⟨id, _, rfl, hopen⟩
  | interrupted id op pc pc' hcall hguarded _ =>
    refine Or.inr ⟨id, _, interrupt_calls .., hof hcall ?_⟩
    rintro outcome rfl
    exact hguarded
  | cancelled => exact Or.inl rfl
  | connectionClosed => exact Or.inl rfl

/-- **A result is final.** -/
theorem Moved.lasting {outcome : Except Error (Option (List UInt8))} (h : Moved cr s s')
    (hdone : s.calls i = some ⟨op, .done outcome⟩) : s'.calls i = some ⟨op, .done outcome⟩ := by
  rcases h.writes with heq | ⟨id, call, heq, hopen⟩
  · rw [heq]
    exact hdone
  · have hne : i ≠ id := by
      rintro rfl
      exact hopen op outcome hdone
    rw [heq, Function.update_of_ne hne]
    exact hdone

/-! ### Behind the first failure -/

/-- From `s` to `s'` nothing has been encrypted or handed over, and no call has returned a result:
all that has happened is that calls have ended behind their gates. -/
structure OnlyFailures (s s' : SecureSession ι) : Prop where
  log : ∃ later, s'.log = s.log ++ later ∧ ∀ e ∈ later, ∃ id, e = Entry.ended id
  calls : ∀ i op result, s'.calls i = some ⟨op, .done (.ok result)⟩ →
    s.calls i = some ⟨op, .done (.ok result)⟩

omit [DecidableEq ι] in
theorem OnlyFailures.refl (s : SecureSession ι) : OnlyFailures s s :=
  ⟨⟨[], (List.append_nil _).symm, fun _ he => absurd he List.not_mem_nil⟩, fun _ _ _ h => h⟩

omit [DecidableEq ι] in
theorem OnlyFailures.trans {s'' : SecureSession ι} (h : OnlyFailures s s')
    (h' : OnlyFailures s' s'') : OnlyFailures s s'' := by
  obtain ⟨⟨later, hlater, hends⟩, hcalls⟩ := h
  obtain ⟨⟨later', hlater', hends'⟩, hcalls'⟩ := h'
  refine ⟨⟨later ++ later', ?_, fun e he => ?_⟩, fun i op result hi => ?_⟩
  · rw [hlater', hlater, List.append_assoc]
  · rcases List.mem_append.mp he with he | he
    · exact hends e he
    · exact hends' e he
  · exact hcalls i op result (hcalls' i op result hi)

/-- **Nothing but failures** where the token is cancelled. -/
theorem Moved.over (h : Moved cr s s') (hcancel : s.cancel = true) :
    s'.cancel = true ∧ OnlyFailures s s' := by
  have hquiet : ∃ later, s.log = s.log ++ later ∧ ∀ e ∈ later, ∃ id, e = Entry.ended id :=
    ⟨[], (List.append_nil _).symm, fun e he => absurd he List.not_mem_nil⟩
  have hset : ∀ {id : ι} {op : Op} {pc : PC}, pc = .start ∨ pc.Over → ∀ i op' result,
      (s.set id op pc).calls i = some ⟨op', .done (.ok result)⟩ →
        s.calls i = some ⟨op', .done (.ok result)⟩ := by
    intro id op pc hpc i op' result hi
    by_cases hid : i = id
    · subst hid
      rw [set_calls_self, Option.some.injEq, Call.mk.injEq] at hi
      rcases hpc with hstart | hover
      · exact absurd (hstart.symm.trans hi.2) (by simp)
      · rw [hi.2] at hover
        exact hover.elim
    · rwa [show (s.set id op pc).calls i = s.calls i from Function.update_of_ne hid ..] at hi
  cases h with
  | called id op pc _ hpc => exact ⟨hcancel, hquiet, hset hpc⟩
  | turnedAway id op pc _ hover => exact ⟨hcancel, hquiet, hset (Or.inr hover)⟩
  | withdrew id op pc _ hover =>
    refine ⟨?_, ?_, fun i op' result hi => ?_⟩
    · rw [leave_cancel]
      exact hcancel
    · rw [leave_log]
      exact hquiet
    · rw [leave_calls] at hi
      exact hset (Or.inr hover) i op' result hi
  | interrupted id op pc pc' _ _ hover =>
    refine ⟨interrupt_cancel .., ?_, fun i op' result hi => ?_⟩
    · rw [interrupt_log]
      exact ⟨[.ended id], rfl, fun e he => ⟨id, List.mem_singleton.mp he⟩⟩
    · rw [interrupt_calls] at hi
      exact hset (Or.inr hover) i op' result hi
  | cancelled => exact ⟨rfl, hquiet, fun i op result hi => hi⟩
  | connectionClosed => exact ⟨hcancel, hquiet, fun i op result hi => hi⟩
  | requested id op _ hopen => exact absurd (hopen.symm.trans hcancel) Bool.false_ne_true
  | entered id op _ hopen _ => exact absurd (hopen.symm.trans hcancel) Bool.false_ne_true
  | sends id op rest answers hopen _ => exact absurd (hopen.symm.trans hcancel) Bool.false_ne_true
  | receives id op rest answers hopen _ =>
    exact absurd (hopen.symm.trans hcancel) Bool.false_ne_true

omit [DecidableEq ι] in
theorem not_mem_entries {α : Type} (r : Resumed Error Event α) (id : ι) :
    Entry.ended id ∉ (entries r : List (Entry ι)) := by
  intro hid
  rcases List.mem_append.mp hid with hid | hid
  · obtain ⟨event, -, heq⟩ := List.mem_map.mp hid
    exact absurd heq (by simp)
  · split at hid
    · exact absurd (List.mem_singleton.mp hid) (by simp)
    · exact absurd hid List.not_mem_nil

/-- Whoever ends behind its gate cancels the token. -/
theorem Moved.ends (h : Moved cr s s') (hends : ∀ id, .ended id ∈ s.log → s.cancel = true) :
    ∀ id, .ended id ∈ s'.log → s'.cancel = true := by
  have hnoted : ∀ {α : Type} (r : Resumed Error Event α) (more : List (Entry ι)),
      (∀ id, Entry.ended id ∉ more) → ∀ id, .ended id ∈ s.log ++ entries r ++ more →
        s.cancel = true := by
    intro α r more hmore id hid
    rw [List.append_assoc, List.mem_append, List.mem_append] at hid
    rcases hid with hid | hid | hid
    · exact hends id hid
    · exact absurd hid (not_mem_entries r id)
    · exact absurd hid (hmore id)
  have hnone : ∀ id : ι, Entry.ended id ∉ ([] : List (Entry ι)) := fun _ => List.not_mem_nil
  cases h with
  | called => exact hends
  | turnedAway => exact hends
  | requested id op _ _ =>
    rw [setGate_log, setGate_cancel]
    exact hends
  | withdrew id op pc _ _ =>
    rw [leave_log, leave_cancel]
    exact hends
  | entered => exact hends
  | sends id op rest answers _ _ =>
    rcases runSend_cases s id op rest answers with ⟨state, -, heq⟩ | ⟨e, -, heq⟩ | ⟨-, heq⟩
    · rw [heq, leave_log, leave_cancel]
      exact hnoted _ [.sent id s.inner.sendState.sequence] fun i hi =>
        absurd (List.mem_singleton.mp hi) (by simp)
    · rw [heq, interrupt_cancel]
      exact fun _ _ => rfl
    · rw [heq]
      intro i hi
      exact hnoted _ [] hnone i (by rw [List.append_nil]; exact hi)
  | receives id op rest answers _ _ =>
    rcases runReceive_cases s id op rest answers with
      ⟨plaintext, state, -, heq | ⟨e, heq⟩⟩ | ⟨e, -, heq⟩ | ⟨-, heq⟩
    · rw [heq, leave_log, leave_cancel]
      exact hnoted _ [.received id s.inner.receiveState.sequence] fun i hi =>
        absurd (List.mem_singleton.mp hi) (by simp)
    · rw [heq, interrupt_cancel]
      exact fun _ _ => rfl
    · rw [heq, interrupt_cancel]
      exact fun _ _ => rfl
    · rw [heq]
      intro i hi
      exact hnoted _ [] hnone i (by rw [List.append_nil]; exact hi)
  | interrupted id op pc pc' _ _ _ =>
    rw [interrupt_cancel]
    exact fun _ _ => rfl
  | cancelled => exact fun _ _ => rfl
  | connectionClosed => exact hends

/-! ### Runs -/

/-- What every move keeps holds at the end of every run. -/
theorem invariant_of_moves (P : SecureSession ι → Prop)
    (hmoved : ∀ s s', P s → Moved cr s s' → P s') (h0 : P s)
    (h : Runs (SecureSession.step cr) (fun _ _ => True) s s') : P s' := by
  refine h.invariant P h0 fun s l s' hs _ hstep => ?_
  exact (Moved.of_step hstep).keeps P hmoved hs

/-- **The first failure cancels the token**, -/
theorem cancel_of_ended {connection : SecureConnection}
    (h : Runs (SecureSession.step cr) (fun _ _ => True) (.new connection) s)
    (hid : .ended id ∈ s.log) : s.cancel = true := by
  refine invariant_of_moves (fun s => ∀ id, .ended id ∈ s.log → s.cancel = true)
    (fun s s' hs hmove => hmove.ends hs) ?_ h id hid
  exact fun id hid => absurd hid List.not_mem_nil

/-- **and nothing follows it.** -/
theorem onlyFailures_of_runs (hcancel : s.cancel = true)
    (h : Runs (SecureSession.step cr) (fun _ _ => True) s s') : OnlyFailures s s' := by
  have hover := invariant_of_moves (fun x => x.cancel = true ∧ OnlyFailures s x)
    (fun x x' hx hmove => ⟨(hmove.over hx.1).1, hx.2.trans (hmove.over hx.1).2⟩)
    ⟨hcancel, .refl s⟩ h
  exact hover.2

end Secure

end Taunicorn
