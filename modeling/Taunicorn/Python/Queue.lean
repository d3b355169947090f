import Taunicorn.Lib.Channel
import Taunicorn.Lib.FifoMutex
import Taunicorn.Lib.Machine

/-!
# The queues

`BoundedQueue` and `UnboundedQueue`: a channel, a fair lock around its receiver, and a shutdown
token. Closing is split. `close` cancels the token, and closes the channel only if nobody has the
lock; whoever gets the lock next finds the token cancelled and closes the channel then. A send
looks at the token first and offers its item in a step of its own, so that an item can still come
in behind a `close`.

The two queues differ in their capacity: where the source has no wait for room, there is none
here, for a channel without a capacity is never full.

## Granularity

One step of a call is one access to the token, to the lock or to the channel. A `send` or `recv`
that finds no room or no item is suspended, and polled again it starts over with the token, which
its `select!` looks at first. It can be dropped there, and before its first poll, and a `recv` in
the queue of the lock; a method without a future runs to its end.

An item is tagged with the call that sent it. The tag is a ghost. The constructor's check of the
capacity is absent.

## Main results

* `polled_of_poll` — the steps of a call
* `QueueInv.step` — what was received under the lock is what was taken from the channel
* `close_and_drain` — nothing is lost, and a closed queue that is drained stays so
-/

namespace Taunicorn

namespace Queues

open FifoMutex

/-! ### The calls -/

/-- `QueueClosed`, `QueueFull`, `QueueEmpty` and `QueueBusy`. -/
inductive QueueError where
  | closed
  | full
  | empty
  | busy
  deriving DecidableEq, Repr

def QueueError.text : QueueError → String
  | .closed => "queue is closed"
  | .full => "queue is full"
  | .empty => "queue is empty"
  | .busy => "receiver is busy"

inductive Op (α : Type) where
  | send (item : α)
  | trySend (item : α)
  | recv
  | tryRecv
  | close
  | isClosed

inductive Value (α : Type) where
  | unit
  | item (x : α)
  | flag (value : Bool)

abbrev Outcome (α : Type) := Except QueueError (Value α)

/-- Where a call stands. -/
inductive PC (α : Type) where
  | start
  /-- In the queue of the receiver's lock, or given the lock and not polled since. -/
  | lockWait
  /-- `rx.try_lock()`. -/
  | tryLock
  /-- `shutdown.cancel()`. -/
  | cancel
  /-- `shutdown.is_cancelled()`, or the first branch of the `select!`. -/
  | check
  /-- `tx.is_closed()`. -/
  | checkClosed
  /-- `rx.close()`. -/
  | closing
  /-- `tx.send(item)` or `tx.try_send(item)`. -/
  | offer
  /-- `rx.recv()` or `rx.try_recv()`. -/
  | take
  /-- Suspended in the `select!`. -/
  | waiting
  /-- The outcome is fixed, and the guard of the lock is to be dropped. -/
  | unlock (outcome : Outcome α)
  | done (outcome : Outcome α)
  | dropped

structure Call (α : Type) where
  op : Op α
  pc : PC α := .start

/-- The fields of a queue. -/
structure Shared (ι α : Type) where
  channel : Channel (ι × α)
  shutdown : Bool := false
  lock : FifoMutex ι := {}

variable {ι α : Type}

def Op.item : Op α → Option α
  | .send item => some item
  | .trySend item => some item
  | _ => none

def Op.receives : Op α → Bool
  | .recv => true
  | .tryRecv => true
  | _ => false

def Op.closes : Op α → Bool
  | .close => true
  | _ => false

/-- The methods that return a future. -/
def Op.isAsync : Op α → Bool
  | .send _ => true
  | .recv => true
  | _ => false

/-- What follows the lock. -/
def Op.locked : Op α → PC α
  | .close => .closing
  | _ => .check

/-- What a `try_lock` that fails returns. -/
def Op.busy : Op α → Outcome α
  | .close => .ok .unit
  | _ => .error .busy

/-- What follows a check of the token that finds it cancelled, -/
def Op.stopped : Op α → PC α
  | .send _ => .done (.error .closed)
  | .trySend _ => .done (.error .closed)
  | .isClosed => .done (.ok (.flag true))
  | _ => .closing

/-- and one that does not. -/
def Op.running : Op α → PC α
  | .send _ => .offer
  | .trySend _ => .checkClosed
  | .isClosed => .checkClosed
  | _ => .take

/-- What follows `tx.is_closed()`. -/
def Op.checked (closed : Bool) : Op α → PC α
  | .trySend _ => if closed then .done (.error .closed) else .offer
  | _ => .done (.ok (.flag closed))

/-- What follows `rx.close()`. -/
def Op.closed : Op α → PC α
  | .close => .unlock (.ok .unit)
  | _ => .take

/-- What follows a receive from an empty channel. -/
def Op.nothing (closed : Bool) : Op α → PC α
  | .recv => if closed then .unlock (.error .closed) else .waiting
  | _ => .unlock (.error (if closed then .closed else .empty))

variable [DecidableEq ι]

/-- **One step of a call.** -/
def poll (sh : Shared ι α) (id : ι) (op : Op α) : PC α → Option (PC α × Shared ι α)
  | .start =>
    match op with
    | .recv => some (.lockWait, { sh with lock := sh.lock.request id })
    | .tryRecv => some (.tryLock, sh)
    | .close => some (.cancel, sh)
    | _ => some (.check, sh)
  | .lockWait => if sh.lock.holder = some id then some (op.locked, sh) else none
  | .tryLock =>
    if sh.lock.queue.isEmpty then some (.lockWait, { sh with lock := sh.lock.request id })
    else some (.done op.busy, sh)
  | .cancel => some (.tryLock, { sh with shutdown := true })
  | .check => some (if sh.shutdown then op.stopped else op.running, sh)
  | .checkClosed => some (op.checked sh.channel.closed, sh)
  | .closing => some (op.closed, { sh with channel := sh.channel.close })
  | .offer =>
    op.item.bind fun item =>
      if sh.channel.closed then some (.done (.error .closed), sh)
      else if h : sh.channel.full = false then
        some (.done (.ok .unit), { sh with channel := sh.channel.push (id, item) h })
      else some (if op.isAsync then .waiting else .done (.error .full), sh)
  | .take =>
    match h : sh.channel.buffer with
    | [] => some (op.nothing sh.channel.closed, sh)
    | x :: rest =>
      some (.unlock (.ok (.item x.2)), { sh with channel := sh.channel.pop x rest h })
  | .waiting => some (.check, sh)
  | .unlock outcome => some (.done outcome, { sh with lock := sh.lock.leave id })
  | .done _ => none
  | .dropped => none

/-- The await points of a call, and what dropping it there does. -/
def drop (sh : Shared ι α) (id : ι) (call : Call α) : Option (Shared ι α) :=
  match call.op, call.pc with
  | .send _, .start => some sh
  | .send _, .waiting => some sh
  | .recv, .start => some sh
  | .recv, .lockWait => some { sh with lock := sh.lock.leave id }
  | .recv, .waiting => some { sh with lock := sh.lock.leave id }
  | _, _ => none

/-- A queue and the calls on it. -/
structure Queue (ι α : Type) where
  shared : Shared ι α
  calls : ι → Option (Call α) := fun _ => none

def Queue.new (capacity : Option ℕ) : Queue ι α where
  shared := { channel := .new capacity }

inductive Label (ι α : Type) where
  | call (id : ι) (op : Op α)
  | poll (id : ι)
  | drop (id : ι)

/-- **One step of the queue.** -/
def Queue.step (q : Queue ι α) : Label ι α → Option (Queue ι α)
  | .call id op =>
    match q.calls id with
    | none => some { q with calls := Function.update q.calls id (some { op }) }
    | some _ => none
  | .poll id =>
    match q.calls id with
    | none => none
    | some call =>
      (poll q.shared id call.op call.pc).map fun (pc, shared) =>
        { shared, calls := Function.update q.calls id (some { call with pc }) }
  | .drop id =>
    match q.calls id with
    | none => none
    | some call => (drop q.shared id call).map fun shared =>
      { shared, calls := Function.update q.calls id (some { call with pc := .dropped }) }

def Call.outcome (call : Call α) : Option (Outcome α) :=
  match call.pc with
  | .unlock outcome => some outcome
  | .done outcome => some outcome
  | _ => none

/-! ### What one step of a call can do -/

/-- The steps of a call, each with the condition under which it is taken. -/
inductive Polled (sh : Shared ι α) (id : ι) (op : Op α) : PC α → PC α → Shared ι α → Prop
  | asked : op.receives = true →
      Polled sh id op .start .lockWait { sh with lock := sh.lock.request id }
  | entered (pc : PC α) : (pc = .tryLock ∧ op.receives = true) ∨ (pc = .cancel ∧ op.closes = true) ∨
      (pc = .check ∧ op.closes = false ∧ op.receives = false) → Polled sh id op .start pc sh
  | granted : sh.lock.holder = some id → Polled sh id op .lockWait op.locked sh
  | tryLocked : Polled sh id op .tryLock .lockWait { sh with lock := sh.lock.request id }
  | busy : Polled sh id op .tryLock (.done op.busy) sh
  | cancelled : Polled sh id op .cancel .tryLock { sh with shutdown := true }
  | stopped : sh.shutdown = true → Polled sh id op .check op.stopped sh
  | running : sh.shutdown = false → Polled sh id op .check op.running sh
  | checked : Polled sh id op .checkClosed (op.checked sh.channel.closed) sh
  | closed : Polled sh id op .closing op.closed { sh with channel := sh.channel.close }
  | refused : Polled sh id op .offer (.done (.error .closed)) sh
  | full (pc : PC α) : pc = .waiting ∨ pc = .done (.error .full) → Polled sh id op .offer pc sh
  | accepted (item : α) (h : sh.channel.full = false) : op.item = some item →
      sh.channel.closed = false →
      Polled sh id op .offer (.done (.ok .unit))
        { sh with channel := sh.channel.push (id, item) h }
  | nothing : sh.channel.buffer = [] →
      Polled sh id op .take (op.nothing sh.channel.closed) sh
  | taken (x : ι × α) (rest : List (ι × α)) (h : sh.channel.buffer = x :: rest) :
      Polled sh id op .take (.unlock (.ok (.item x.2)))
        { sh with channel := sh.channel.pop x rest h }
  | again : Polled sh id op .waiting .check sh
  | unlocked (outcome : Outcome α) :
      Polled sh id op (.unlock outcome) (.done outcome) { sh with lock := sh.lock.leave id }

variable {sh sh' : Shared ι α} {id i : ι} {op : Op α} {pc pc' : PC α} {q q' : Queue ι α}
  {call call' : Call α} {label : Label ι α}

/-- **The list is complete.** -/
theorem polled_of_poll (h : poll sh id op pc = some (pc', sh')) : Polled sh id op pc pc' sh' := by
  unfold poll at h
  split at h
  case h_1 =>
    cases op <;> cases h
    · exact .entered _ (Or.inr (Or.inr ⟨rfl, rfl, rfl⟩))
    · exact .entered _ (Or.inr (Or.inr ⟨rfl, rfl, rfl⟩))
    · exact .asked rfl
    · exact .entered _ (Or.inl ⟨rfl, rfl⟩)
    · exact .entered _ (Or.inr (Or.inl ⟨rfl, rfl⟩))
    · exact .entered _ (Or.inr (Or.inr ⟨rfl, rfl, rfl⟩))
  case h_2 =>
    split_ifs at h with hholder
    cases h
    exact .granted hholder
  case h_3 =>
    split_ifs at h
    · cases h; exact .tryLocked
    · cases h; exact .busy
  case h_4 => cases h; exact .cancelled
  case h_5 =>
    cases h
    split
    · next hset => exact .stopped hset
    · next hclear => exact .running (by simpa using hclear)
  case h_6 => cases h; exact .checked
  case h_7 => cases h; exact .closed
  case h_8 =>
    obtain ⟨item, hitem, h⟩ := Option.bind_eq_some_iff.mp h
    split at h
    · cases h; exact .refused
    · next hclosed =>
      split at h
      · next hfull => cases h; exact .accepted item hfull hitem (by simpa using hclosed)
      · cases h
        refine .full _ ?_
        split
        · exact Or.inl rfl
        · exact Or.inr rfl
  case h_9 =>
    split at h
    · next hempty => cases h; exact .nothing hempty
    · next x rest hbuffer => cases h; exact .taken x rest hbuffer
  case h_10 => cases h; exact .again
  case h_11 outcome => cases h; exact .unlocked outcome
  case h_12 => exact absurd h nofun
  case h_13 => exact absurd h nofun

/-! ### What is known of a call -/

omit [DecidableEq ι] in
theorem Op.cases (op : Op α) : (op.item ≠ none ∧ op.receives = false ∧ op.closes = false) ∨
    (op.item = none ∧ op.receives = true ∧ op.closes = false) ∨ op = .close ∨ op = .isClosed := by
  cases op <;> simp [Op.item, Op.receives, Op.closes]

/-- What is known of an outcome: a `close` has cancelled the token, and a receive that has found
the queue closed has found it drained. -/
def Known (sh : Shared ι α) (op : Op α) (outcome : Outcome α) : Prop :=
  (op.closes = true → sh.shutdown = true) ∧
    (op.receives = true → outcome = .error .closed → sh.channel.Drained)

/-- What is known of a call where it stands. -/
def Behind (sh : Shared ι α) (op : Op α) : PC α → Prop
  | .start => True
  | .lockWait => op.receives = true ∨ (op.closes = true ∧ sh.shutdown = true)
  | .tryLock => op.receives = true ∨ (op.closes = true ∧ sh.shutdown = true)
  | .cancel => op.closes = true
  | .check => op.closes = false
  | .checkClosed => op.closes = false ∧ op.receives = false
  | .closing => (op.receives = true ∨ op.closes = true) ∧ sh.shutdown = true
  | .offer => op.closes = false ∧ op.receives = false
  | .take => op.receives = true
  | .waiting => op.closes = false
  | .unlock outcome => (op.receives = true ∨ op.closes = true) ∧ Known sh op outcome
  | .done outcome => Known sh op outcome
  | .dropped => True

omit [DecidableEq ι] in
theorem Behind.mono (h : Behind sh op pc) (hshutdown : sh.shutdown = true → sh'.shutdown = true)
    (hdrained : sh.channel.Drained → sh'.channel.Drained) : Behind sh' op pc := by
  have hknown : ∀ outcome, Known sh op outcome → Known sh' op outcome :=
    fun outcome h => ⟨fun hop => hshutdown (h.1 hop), fun hop hout => hdrained (h.2 hop hout)⟩
  cases pc with
  | lockWait => exact h.imp_right fun h => ⟨h.1, hshutdown h.2⟩
  | tryLock => exact h.imp_right fun h => ⟨h.1, hshutdown h.2⟩
  | closing => exact ⟨h.1, hshutdown h.2⟩
  | unlock outcome => exact ⟨h.1, hknown outcome h.2⟩
  | done outcome => exact hknown outcome h
  | _ => exact h

/-- The token and the channel stay closed, and a drained channel stays as it is. -/
theorem Polled.lasting (h : Polled sh id op pc pc' sh') :
    (sh.shutdown = true → sh'.shutdown = true) ∧
      (sh.channel.Drained → sh'.channel.Drained ∧ sh'.channel.accepted = sh.channel.accepted) := by
  cases h with
  | cancelled => exact ⟨fun _ => rfl, fun h => ⟨h, rfl⟩⟩
  | closed => exact ⟨fun h => h, fun h => ⟨⟨rfl, h.2⟩, rfl⟩⟩
  | accepted item hfull _ hopen => exact ⟨fun h => h, fun h => absurd (h.1.symm.trans hopen) nofun⟩
  | taken x rest hbuffer => exact ⟨fun h => h, fun h => absurd (h.2.symm.trans hbuffer) nofun⟩
  | _ => exact ⟨fun h => h, fun h => ⟨h, rfl⟩⟩

theorem Polled.behind (h : Polled sh id op pc pc' sh') (hbehind : Behind sh op pc)
    (hclosed : sh.channel.closed = true → sh.shutdown = true) : Behind sh' op pc' := by
  obtain ⟨hshutdown, hdrained⟩ := h.lasting
  cases h with
  | asked hop => exact Or.inl hop
  | entered pc hpc =>
    rcases hpc with ⟨rfl, hop⟩ | ⟨rfl, hop⟩ | ⟨rfl, hop⟩
    · exact Or.inl hop
    · exact hop
    · exact hop.1
  | granted _ =>
    cases op <;> simp_all [Behind, Op.locked, Op.receives, Op.closes]
  | tryLocked => exact hbehind
  | busy =>
    cases op <;> simp_all [Behind, Op.busy, Op.receives, Op.closes, Known]
  | cancelled => exact Or.inr ⟨hbehind, rfl⟩
  | stopped hset =>
    cases op <;> simp_all [Behind, Op.stopped, Op.receives, Op.closes, Known]
  | running _ =>
    cases op <;> simp_all [Behind, Op.running, Op.receives, Op.closes]
  | checked =>
    cases op <;> cases sh.channel.closed <;>
      simp_all [Behind, Op.checked, Op.receives, Op.closes, Known]
  | closed =>
    cases op <;> simp_all [Behind, Op.closed, Op.receives, Op.closes, Known]
  | refused => exact ⟨fun hop => absurd (hbehind.1.symm.trans hop) nofun,
      fun hop => absurd (hbehind.2.symm.trans hop) nofun⟩
  | full pc hpc =>
    rcases hpc with rfl | rfl
    · exact hbehind.1
    · exact ⟨fun hop => absurd (hbehind.1.symm.trans hop) nofun, fun _ => nofun⟩
  | accepted item hfull _ _ =>
    exact ⟨fun hop => absurd (hbehind.1.symm.trans hop) nofun, fun _ => nofun⟩
  | nothing hempty =>
    cases hclosed' : sh.channel.closed <;> cases op <;>
      simp_all [Behind, Op.nothing, Op.receives, Op.closes, Known, Channel.Drained]
  | taken x rest hbuffer =>
    cases op <;> simp_all [Behind, Op.receives, Op.closes, Known]
  | again => exact hbehind
  | unlocked outcome => exact hbehind.2

/-! ### The receiver's lock -/

/-- Where a call stands at the receiver's lock. -/
def Op.place (op : Op α) (pc : PC α) : Place :=
  if op.receives || op.closes then
    match pc with
    | .start => .away
    | .lockWait => .waiting
    | .tryLock => .away
    | .cancel => .away
    | .check => .holding
    | .checkClosed => .holding
    | .closing => .holding
    | .offer => .holding
    | .take => .holding
    | .waiting => .holding
    | .unlock _ => .holding
    | .done _ => .left
    | .dropped => .left
  else .away

/-- What a call has received, once its outcome is fixed. -/
def PC.received : PC α → List α
  | .unlock (.ok (.item x)) => [x]
  | .done (.ok (.item x)) => [x]
  | _ => []

/-- **What a step does at the lock**, and what it takes from the channel. -/
theorem Polled.move (h : Polled sh id op pc pc' sh') (hbehind : Behind sh op pc) :
    sh.lock.Move id (op.place pc) sh'.lock (op.place pc') ∧
      ∃ items, sh'.channel.taken.map Prod.snd = sh.channel.taken.map Prod.snd ++ items ∧
        pc'.received = pc.received ++ items ∧ (items ≠ [] → op.place pc = .holding) := by
  have hquiet : sh'.channel.taken = sh.channel.taken → pc'.received = pc.received →
      ∃ items, sh'.channel.taken.map Prod.snd = sh.channel.taken.map Prod.snd ++ items ∧
        pc'.received = pc.received ++ items ∧ (items ≠ [] → op.place pc = .holding) := by
    intro htaken hreceived
    exact ⟨[], by rw [htaken, List.append_nil], by rw [hreceived, List.append_nil],
      fun hne => absurd rfl hne⟩
  have hstay : op.place pc' = op.place pc → sh'.lock = sh.lock →
      sh.lock.Move id (op.place pc) sh'.lock (op.place pc') := by
    rintro hplace hlock
    rw [hplace, hlock]
    exact .stay _
  cases h with
  | asked hop =>
    refine ⟨?_, hquiet rfl rfl⟩
    simpa [Op.place, hop] using Move.request
  | entered pc hpc =>
    rcases hpc with ⟨rfl, hop⟩ | ⟨rfl, hop⟩ | ⟨rfl, hop⟩
    · exact ⟨hstay (by simp [Op.place, hop]) rfl, hquiet rfl rfl⟩
    · exact ⟨hstay (by simp [Op.place, hop]) rfl, hquiet rfl rfl⟩
    · exact ⟨hstay (by simp [Op.place, hop]) rfl, hquiet rfl rfl⟩
  | granted hholder =>
    refine ⟨?_, hquiet rfl (by cases op <;> rfl)⟩
    have hplace : op.place op.locked = .holding ∧ op.place .lockWait = .waiting := by
      cases op <;> simp_all [Behind, Op.place, Op.locked, Op.receives, Op.closes]
    rw [hplace.1, hplace.2]
    exact .granted hholder
  | tryLocked =>
    refine ⟨?_, hquiet rfl rfl⟩
    have hplace : op.place .tryLock = .away ∧ op.place .lockWait = .waiting := by
      rcases hbehind with h | h <;> simp [Op.place, h]
    rw [hplace.1, hplace.2]
    exact .request
  | busy =>
    refine ⟨?_, hquiet rfl (by cases op <;> rfl)⟩
    have hplace : op.place .tryLock = .away ∧ op.place (.done op.busy) = .left := by
      rcases hbehind with h | h <;> simp [Op.place, h]
    rw [hplace.1, hplace.2]
    exact .giveUp
  | cancelled => exact ⟨hstay (by simp [Op.place]) rfl, hquiet rfl rfl⟩
  | stopped _ => exact ⟨hstay (by cases op <;> rfl) rfl, hquiet rfl (by cases op <;> rfl)⟩
  | running _ => exact ⟨hstay (by cases op <;> rfl) rfl, hquiet rfl (by cases op <;> rfl)⟩
  | checked =>
    refine ⟨hstay ?_ rfl, hquiet rfl ?_⟩
    · simp [Op.place, hbehind.1, hbehind.2]
    · cases sh.channel.closed <;> cases op <;> rfl
  | closed => exact ⟨hstay (by cases op <;> rfl) rfl, hquiet rfl (by cases op <;> rfl)⟩
  | refused =>
    exact ⟨hstay (by simp [Op.place, hbehind.1, hbehind.2]) rfl, hquiet rfl rfl⟩
  | full pc hpc =>
    rcases hpc with rfl | rfl <;>
      exact ⟨hstay (by simp [Op.place, hbehind.1, hbehind.2]) rfl, hquiet rfl rfl⟩
  | accepted item hfull _ _ =>
    exact ⟨hstay (by simp [Op.place, hbehind.1, hbehind.2]) rfl, hquiet rfl rfl⟩
  | nothing _ =>
    refine ⟨hstay ?_ rfl, hquiet rfl ?_⟩ <;> cases sh.channel.closed <;> cases op <;> rfl
  | taken x rest hbuffer =>
    have hlocks : op.receives = true := hbehind
    have hplace : op.place .take = .holding := by simp [Op.place, hlocks]
    exact ⟨hstay (by simp [Op.place, hlocks]) rfl, [x.2], by simp [Channel.pop], rfl,
      fun _ => hplace⟩
  | again => exact ⟨hstay rfl rfl, hquiet rfl rfl⟩
  | unlocked outcome =>
    refine ⟨?_, hquiet rfl (by rcases outcome with e | _ | x | b <;> rfl)⟩
    have hplace : op.place (.unlock outcome) = .holding ∧ op.place (.done outcome) = .left := by
      rcases hbehind.1 with h | h <;> simp [Op.place, h]
    rw [hplace.1, hplace.2]
    exact .leave _

/-- **What a step lets in.** -/
theorem Polled.sent (h : Polled sh id op pc pc' sh') (hbehind : Behind sh op pc) :
    (sh'.channel.accepted = sh.channel.accepted ∧ (op.item ≠ none → pc' ≠ .done (.ok .unit))) ∨
      ∃ item, op.item = some item ∧ pc' = .done (.ok .unit) ∧
        sh'.channel.accepted = sh.channel.accepted ++ [(id, item)] := by
  have hlocks : op.receives = true ∨ op.closes = true → op.item = none := by
    cases op <;> simp [Op.receives, Op.closes, Op.item]
  cases h with
  | entered pc hpc =>
    refine Or.inl ⟨rfl, fun _ => ?_⟩
    rcases hpc with ⟨rfl, -⟩ | ⟨rfl, -⟩ | ⟨rfl, -⟩ <;> exact nofun
  | granted _ => exact Or.inl ⟨rfl, fun _ => by cases op <;> exact nofun⟩
  | busy =>
    refine Or.inl ⟨rfl, fun hne => absurd (hlocks (hbehind.imp_right And.left)) hne⟩
  | stopped _ => exact Or.inl ⟨rfl, fun _ => by cases op <;> exact nofun⟩
  | running _ => exact Or.inl ⟨rfl, fun _ => by cases op <;> exact nofun⟩
  | checked =>
    exact Or.inl ⟨rfl, fun _ => by cases op <;> cases sh.channel.closed <;> exact nofun⟩
  | closed => exact Or.inl ⟨rfl, fun _ => by cases op <;> exact nofun⟩
  | full pc hpc =>
    refine Or.inl ⟨rfl, fun _ => ?_⟩
    rcases hpc with rfl | rfl <;> exact nofun
  | accepted item hfull hitem _ => exact Or.inr ⟨item, hitem, rfl, rfl⟩
  | nothing _ =>
    exact Or.inl ⟨rfl, fun _ => by cases op <;> cases sh.channel.closed <;> exact nofun⟩
  | unlocked outcome => exact Or.inl ⟨rfl, fun hne => absurd (hlocks hbehind.1) hne⟩
  | _ => exact Or.inl ⟨rfl, fun _ => nofun⟩

theorem Polled.channel_closed (h : Polled sh id op pc pc' sh') (hbehind : Behind sh op pc)
    (hclosed : sh.channel.closed = true → sh.shutdown = true) :
    sh'.channel.closed = true → sh'.shutdown = true := by
  cases h with
  | cancelled => exact fun _ => rfl
  | closed => exact fun _ => hbehind.2
  | _ => exact hclosed

theorem Polled.capacity (h : Polled sh id op pc pc' sh') :
    sh'.channel.capacity = sh.channel.capacity := by
  cases h <;> rfl

omit [DecidableEq ι] in
theorem Polled.live [DecidableEq ι] (h : Polled sh id op pc pc' sh') (outcome : Outcome α) :
    pc ≠ .done outcome := by
  cases h <;> exact nofun

/-! ### The queue as a whole -/

def Queue.place (q : Queue ι α) (id : ι) : Place :=
  match q.calls id with
  | none => .away
  | some call => call.op.place call.pc

def Queue.received (q : Queue ι α) (id : ι) : List α :=
  match q.calls id with
  | none => []
  | some call => call.pc.received

omit [DecidableEq ι] in
theorem Queue.place_eq (h : q.calls id = some call) : q.place id = call.op.place call.pc := by
  simp only [place, h]

omit [DecidableEq ι] in
theorem Queue.received_eq (h : q.calls id = some call) : q.received id = call.pc.received := by
  simp only [received, h]

/-- **The invariant of a queue.** -/
structure QueueInv (q : Queue ι α) : Prop where
  /-- What was received is what was taken, in the order of the lock. -/
  logged : q.shared.lock.Logged q.place q.received (q.shared.channel.taken.map Prod.snd)
  behind : ∀ id call, q.calls id = some call → Behind q.shared call.op call.pc
  closed : q.shared.channel.closed = true → q.shared.shutdown = true
  sent : ∀ id item, (id, item) ∈ q.shared.channel.accepted ↔
    ∃ call, q.calls id = some call ∧ call.op.item = some item ∧ call.pc = .done (.ok .unit)
  nodup : (q.shared.channel.accepted.map Prod.fst).Nodup

/-- What a step does to the call that makes it, and through it. -/
structure Change (q : Queue ι α) (id : ι) (call : Call α) (q' : Queue ι α) : Prop where
  calls : q'.calls = Function.update q.calls id (some call)
  op : ∀ c, q.calls id = some c → c.op = call.op ∧ ∀ outcome, c.pc ≠ .done outcome
  move : q.shared.lock.Move id (q.place id) q'.shared.lock (call.op.place call.pc)
  taken : ∃ items, q'.shared.channel.taken.map Prod.snd =
      q.shared.channel.taken.map Prod.snd ++ items ∧ call.pc.received = q.received id ++ items ∧
    (items ≠ [] → q.place id = .holding)
  shutdown : q.shared.shutdown = true → q'.shared.shutdown = true
  drained : q.shared.channel.Drained → q'.shared.channel.Drained ∧
    q'.shared.channel.accepted = q.shared.channel.accepted
  behind : Behind q'.shared call.op call.pc
  closed : q'.shared.channel.closed = true → q'.shared.shutdown = true
  capacity : q'.shared.channel.capacity = q.shared.channel.capacity
  sent : (q'.shared.channel.accepted = q.shared.channel.accepted ∧
      (call.op.item ≠ none → call.pc ≠ .done (.ok .unit))) ∨
    ∃ item, call.op.item = some item ∧ call.pc = .done (.ok .unit) ∧
      q'.shared.channel.accepted = q.shared.channel.accepted ++ [(id, item)]

omit [DecidableEq ι] in
theorem queueInv_new (capacity : Option ℕ) : QueueInv (.new capacity : Queue ι α) where
  logged := logged_empty fun _ => rfl
  behind _ _ h := absurd h nofun
  closed h := absurd h nofun
  sent _ _ := ⟨fun h => absurd h List.not_mem_nil, fun ⟨_, h, _⟩ => absurd h nofun⟩
  nodup := List.nodup_nil

theorem QueueInv.change_dropped (hinv : QueueInv q) (hcall : q.calls id = some call)
    (h : drop q.shared id call = some sh') :
    Change q id { call with pc := .dropped }
      { shared := sh',
        calls := Function.update q.calls id (some { call with pc := .dropped }) } := by
  obtain ⟨op, pc⟩ := call
  have hchange : ∀ {op : Op α} {pc : PC α} {sh' : Shared ι α}, q.calls id = some ⟨op, pc⟩ →
      q.shared.lock.Move id (op.place pc) sh'.lock (op.place .dropped) →
      sh'.channel = q.shared.channel → sh'.shutdown = q.shared.shutdown →
      (∀ outcome, pc ≠ .done outcome) → pc.received = [] →
      Change q id ⟨op, .dropped⟩
        { shared := sh', calls := Function.update q.calls id (some ⟨op, .dropped⟩) } := by
    intro op pc sh' hcall hmove hchannel hshutdown hlive hreceived
    refine ⟨rfl, fun c hc => ?_, Queue.place_eq hcall ▸ hmove, ⟨[], ?_, ?_, fun h => absurd rfl h⟩,
      fun h => hshutdown.trans h, fun h => ?_, trivial, ?_, congrArg _ hchannel,
      Or.inl ⟨?_, fun _ => nofun⟩⟩
    · obtain rfl := Option.some.inj (hcall.symm.trans hc)
      exact ⟨rfl, hlive⟩
    · rw [hchannel, List.append_nil]
    · rw [Queue.received_eq hcall, hreceived]
      rfl
    · rw [hchannel]
      exact ⟨h, rfl⟩
    · rw [hchannel, hshutdown]
      exact hinv.closed
    · rw [hchannel]
  unfold drop at h
  split at h
  all_goals first
    | (next hop hpc =>
        obtain rfl := hop
        obtain rfl := hpc
        cases h
        exact hchange hcall (by first | exact .stay _ | exact .giveUp | exact .leave _) rfl rfl
          nofun rfl)
    | exact absurd h nofun

/-- **Every step is such a change.** -/
theorem QueueInv.change (hinv : QueueInv q) (h : q.step label = some q') :
    ∃ id call, Change q id call q' := by
  cases label with
  | call id op =>
    simp only [Queue.step] at h
    split at h
    · next hnone =>
      obtain rfl := Option.some.inj h
      refine ⟨id, { op }, ⟨rfl, fun c hc => absurd (hnone.symm.trans hc) nofun, ?_,
        ⟨[], by simp, by simp [Queue.received, hnone, PC.received], fun hne => absurd rfl hne⟩,
        fun h => h, fun h => ⟨h, rfl⟩, trivial, hinv.closed, rfl,
        Or.inl ⟨rfl, fun _ => nofun⟩⟩⟩
      have hplace : q.place id = op.place .start := by
        simp only [Queue.place, hnone, Op.place, ite_self]
      rw [hplace]
      exact .stay _
    · exact absurd h nofun
  | poll id =>
    simp only [Queue.step] at h
    split at h
    · exact absurd h nofun
    · next call hcall =>
      obtain ⟨⟨pc, sh'⟩, hpoll, rfl⟩ := Option.map_eq_some_iff.mp h
      have hpolled := polled_of_poll hpoll
      have hbehind := hinv.behind id call hcall
      obtain ⟨hmove, htaken⟩ := hpolled.move hbehind
      refine ⟨id, { call with pc }, ⟨rfl, fun c hc => ?_, ?_, ?_, hpolled.lasting.1,
        hpolled.lasting.2, hpolled.behind hbehind hinv.closed,
        hpolled.channel_closed hbehind hinv.closed, hpolled.capacity, hpolled.sent hbehind⟩⟩
      · obtain rfl := Option.some.inj (hcall.symm.trans hc)
        exact ⟨rfl, hpolled.live⟩
      · rw [Queue.place_eq hcall]
        exact hmove
      · rw [Queue.received_eq hcall, Queue.place_eq hcall]
        exact htaken
  | drop id =>
    simp only [Queue.step] at h
    split at h
    · exact absurd h nofun
    · next call hcall =>
      obtain ⟨sh', hdrop, rfl⟩ := Option.map_eq_some_iff.mp h
      exact ⟨id, _, hinv.change_dropped hcall hdrop⟩

theorem Change.calls_self (h : Change q id call q') : q'.calls id = some call := by
  rw [h.calls, Function.update_self]

theorem Change.calls_of_ne (h : Change q id call q') (hne : i ≠ id) : q'.calls i = q.calls i := by
  rw [h.calls, Function.update_of_ne hne]

omit [DecidableEq ι] in
theorem PC.received_of_waiting (h : op.place pc = .waiting) : pc.received = [] := by
  unfold Op.place at h
  split at h
  · cases pc <;> first | rfl | exact absurd h nofun
  · exact absurd h nofun

theorem Change.queueInv (h : Change q id call q') (hinv : QueueInv q) : QueueInv q' := by
  have hself := h.calls_self
  obtain ⟨items, htaken, hreceived, hholds⟩ := h.taken
  have hplace : ∀ i, i ≠ id → q'.place i = q.place i := fun i hi => by
    simp only [Queue.place, h.calls_of_ne hi]
  have hlogged :
      q'.shared.lock.Logged q'.place q'.received (q'.shared.channel.taken.map Prod.snd) := by
    rw [htaken]
    have hmove : q.shared.lock.Move id (q.place id) q'.shared.lock (q'.place id) := by
      rw [Queue.place_eq hself]
      exact h.move
    refine hinv.logged.step hmove hplace (fun i hi => ?_) ?_ (fun hne => ?_) fun hwaiting => ?_
    · simp only [Queue.received, h.calls_of_ne hi]
    · rw [Queue.received_eq hself]
      exact hreceived
    · have hat := hinv.logged.at_place id
      rw [hholds hne] at hat
      exact hat
    · rw [Queue.received_eq hself]
      exact PC.received_of_waiting (Queue.place_eq hself ▸ hwaiting)
  -- the call that steps has sent nothing before
  have hfresh : ∀ item, (id, item) ∉ q.shared.channel.accepted := by
    intro item hmem
    obtain ⟨c, hc, -, hdone⟩ := (hinv.sent id item).mp hmem
    exact (h.op c hc).2 _ hdone
  refine ⟨hlogged, fun i c hc => ?_, h.closed, fun i item => ?_, ?_⟩
  · by_cases hi : i = id
    · subst hi
      obtain rfl := Option.some.inj (hself.symm.trans hc)
      exact h.behind
    · exact (hinv.behind i c (h.calls_of_ne hi ▸ hc)).mono h.shutdown fun hd => (h.drained hd).1
  · by_cases hi : i = id
    · subst hi
      rcases h.sent with ⟨haccepted, hnot⟩ | ⟨sent, hitem, hdone, haccepted⟩
      · rw [haccepted]
        refine iff_of_false (hfresh item) ?_
        rintro ⟨c, hc, hcitem, hcdone⟩
        obtain rfl := Option.some.inj (hself.symm.trans hc)
        exact hnot (by rw [hcitem]; exact nofun) hcdone
      · rw [haccepted, List.mem_append, List.mem_singleton]
        constructor
        · rintro (hmem | heq)
          · exact absurd hmem (hfresh item)
          · obtain ⟨-, rfl⟩ := Prod.mk.inj heq
            exact ⟨call, hself, hitem, hdone⟩
        · rintro ⟨c, hc, hcitem, -⟩
          obtain rfl := Option.some.inj (hself.symm.trans hc)
          rw [hitem, Option.some.injEq] at hcitem
          exact Or.inr (by rw [hcitem])
    · rw [h.calls_of_ne hi, ← hinv.sent i item]
      rcases h.sent with ⟨haccepted, -⟩ | ⟨sent, -, -, haccepted⟩
      · rw [haccepted]
      · rw [haccepted, List.mem_append, List.mem_singleton]
        exact or_iff_left fun heq => hi (congrArg Prod.fst heq)
  · rcases h.sent with ⟨haccepted, -⟩ | ⟨sent, -, -, haccepted⟩
    · rw [haccepted]
      exact hinv.nodup
    · rw [haccepted, List.map_append, List.nodup_append]
      refine ⟨hinv.nodup, List.nodup_singleton _, ?_⟩
      rintro i hi j hj rfl
      obtain rfl := List.mem_singleton.mp hj
      obtain ⟨⟨j, item⟩, hmem, rfl⟩ := List.mem_map.mp hi
      exact hfresh item hmem

theorem QueueInv.step (hinv : QueueInv q) (h : q.step label = some q') : QueueInv q' := by
  obtain ⟨id, call, hchange⟩ := hinv.change h
  exact hchange.queueInv hinv

theorem QueueInv.of_runs {allowed : Queue ι α → Label ι α → Prop} (hinv : QueueInv q)
    (h : Runs Queue.step allowed q q') : QueueInv q' :=
  h.invariant QueueInv hinv fun _ _ _ hinv _ hstep => hinv.step hstep

/-! ### Behind a `close` -/

/-- What a step of the queue does to a call. -/
theorem Queue.step_calls {c : Call α} (h : q.step label = some q') (hc : q'.calls i = some c) :
    q.calls i = some c ∨ (q.calls i = none ∧ c.pc = .start) ∨
      ∃ c₀, q.calls i = some c₀ ∧ c.op = c₀.op ∧
        (c.pc = .dropped ∨ Polled q.shared i c₀.op c₀.pc c.pc q'.shared) := by
  cases label with
  | call id op =>
    simp only [Queue.step] at h
    split at h
    · next hnone =>
      obtain rfl := Option.some.inj h
      dsimp only at hc
      by_cases hi : i = id
      · subst hi
        rw [Function.update_self, Option.some.injEq] at hc
        exact Or.inr (Or.inl ⟨hnone, by rw [← hc]⟩)
      · rw [Function.update_of_ne hi] at hc
        exact Or.inl hc
    · exact absurd h nofun
  | poll id =>
    simp only [Queue.step] at h
    split at h
    · exact absurd h nofun
    · next call hcall =>
      obtain ⟨⟨pc, sh'⟩, hpoll, rfl⟩ := Option.map_eq_some_iff.mp h
      dsimp only at hc
      by_cases hi : i = id
      · subst hi
        rw [Function.update_self, Option.some.injEq] at hc
        subst hc
        exact Or.inr (Or.inr ⟨call, hcall, rfl, Or.inr (polled_of_poll hpoll)⟩)
      · rw [Function.update_of_ne hi] at hc
        exact Or.inl hc
  | drop id =>
    simp only [Queue.step] at h
    split at h
    · exact absurd h nofun
    · next call hcall =>
      obtain ⟨sh', -, rfl⟩ := Option.map_eq_some_iff.mp h
      dsimp only at hc
      by_cases hi : i = id
      · subst hi
        rw [Function.update_self, Option.some.injEq] at hc
        subst hc
        exact Or.inr (Or.inr ⟨call, hcall, rfl, Or.inl rfl⟩)
      · rw [Function.update_of_ne hi] at hc
        exact Or.inl hc

/-- A send that starts behind a cancelled token. -/
def Refused (call : Call α) : Prop :=
  call.pc = .start ∨ call.pc = .check ∨ call.pc = .done (.error .closed) ∨ call.pc = .dropped

omit [DecidableEq ι] in
/-- It goes no further than the token. -/
theorem Polled.refuses [DecidableEq ι] (h : Polled sh id op pc pc' sh') (hitem : op.item ≠ none)
    (hset : sh.shutdown = true) (hpc : pc = .start ∨ pc = .check) :
    pc' = .check ∨ pc' = .done (.error .closed) := by
  have hop : op.receives = false ∧ op.closes = false := by
    cases op <;> simp [Op.item, Op.receives, Op.closes] at hitem ⊢
  cases h with
  | asked h => exact absurd (hop.1.symm.trans h) nofun
  | entered pc h =>
    rcases h with ⟨-, h⟩ | ⟨-, h⟩ | ⟨rfl, -⟩
    · exact absurd (hop.1.symm.trans h) nofun
    · exact absurd (hop.2.symm.trans h) nofun
    · exact Or.inl rfl
  | stopped _ =>
    cases op <;> first | exact Or.inr rfl | exact absurd rfl hitem
  | running hclear => exact absurd (hset.symm.trans hclear) nofun
  | _ => simp at hpc

theorem refused_of_runs {allowed : Queue ι α → Label ι α → Prop} (hinv : QueueInv q)
    (hset : q.shared.shutdown = true) (hnone : q.calls i = none)
    (h : Runs Queue.step allowed q q') :
    ∀ call, q'.calls i = some call → call.op.item ≠ none → Refused call := by
  have hkeeps := h.invariant (fun q => (QueueInv q ∧ q.shared.shutdown = true) ∧
    ∀ call, q.calls i = some call → call.op.item ≠ none → Refused call)
    ⟨⟨hinv, hset⟩, fun _ hcall => absurd (hnone.symm.trans hcall) nofun⟩ ?_
  · exact hkeeps.2
  · rintro q label q' ⟨⟨hinv, hset⟩, hrefused⟩ - hstep
    obtain ⟨id, c, hchange⟩ := hinv.change hstep
    refine ⟨⟨hinv.step hstep, hchange.shutdown hset⟩, fun call hcall hitem => ?_⟩
    rcases Queue.step_calls hstep hcall with hold | ⟨-, hstart⟩ | ⟨c₀, hc₀, hop, hdropped | hpolled⟩
    · exact hrefused call hold hitem
    · exact Or.inl hstart
    · exact Or.inr (Or.inr (Or.inr hdropped))
    · rw [hop] at hitem
      have hpc : c₀.pc = .start ∨ c₀.pc = .check := by
        rcases hrefused c₀ hc₀ hitem with h | h | h | h
        · exact Or.inl h
        · exact Or.inr h
        · exact absurd h (hpolled.live _)
        · rw [h] at hpolled
          exact absurd hpolled nofun
      rcases hpolled.refuses hitem hset hpc with h | h
      · exact Or.inr (Or.inl h)
      · exact Or.inr (Or.inr (Or.inl h))

/-! ### Close and drain -/

/-- Once a queue is drained it stays so, and nothing comes in. -/
theorem QueueInv.drained_of_runs {allowed : Queue ι α → Label ι α → Prop} (hinv : QueueInv q)
    (hdrained : q.shared.channel.Drained) (h : Runs Queue.step allowed q q') :
    q'.shared.channel.Drained ∧ q'.shared.channel.accepted = q.shared.channel.accepted := by
  have hkeeps := h.invariant (fun x => QueueInv x ∧ x.shared.channel.Drained ∧
    x.shared.channel.accepted = q.shared.channel.accepted) ⟨hinv, hdrained, rfl⟩ ?_
  · exact hkeeps.2
  · rintro x label x' ⟨hinv, hdrained, haccepted⟩ - hstep
    obtain ⟨id, c, hchange⟩ := hinv.change hstep
    obtain ⟨hdrained', haccepted'⟩ := hchange.drained hdrained
    exact ⟨hinv.step hstep, hdrained', haccepted'.trans haccepted⟩

omit [DecidableEq ι] in
theorem QueueInv.known (hinv : QueueInv q) (hcall : q.calls id = some call) {outcome : Outcome α}
    (houtcome : call.outcome = some outcome) : Known q.shared call.op outcome := by
  have hbehind := hinv.behind id call hcall
  unfold Call.outcome at houtcome
  cases hpc : call.pc <;> rw [hpc] at hbehind houtcome
  case unlock => exact Option.some.inj houtcome ▸ hbehind.2
  case done => exact Option.some.inj houtcome ▸ hbehind
  all_goals exact absurd houtcome nofun

/-- **Closing and draining a queue.** What the receives have returned, in the order in which they
were given the lock, and then the buffer, is exactly what the sends that succeeded have sent, in
the order in which it came in; the buffer holds no more than its capacity; a send that starts
behind a `close` that has returned does not succeed; and once a receive has found the queue closed,
everything that came in has been received, and nothing comes in any more. -/
theorem close_and_drain {capacity : Option ℕ} {allowed : Queue ι α → Label ι α → Prop}
    (h : Runs Queue.step allowed (.new capacity) q) :
    (q.shared.lock.granted.flatMap q.received ++ q.shared.channel.buffer.map Prod.snd =
        q.shared.channel.accepted.map Prod.snd ∧
      q.shared.lock.granted.Nodup ∧ (∀ id, q.received id ≠ [] → id ∈ q.shared.lock.granted) ∧
      (q.shared.channel.accepted.map Prod.fst).Nodup ∧
      ∀ id item, (id, item) ∈ q.shared.channel.accepted ↔ ∃ call, q.calls id = some call ∧
        call.op.item = some item ∧ call.pc = .done (.ok .unit)) ∧
    (∀ n, capacity = some n → q.shared.channel.buffer.length ≤ n) ∧
    (∀ id call outcome, q.calls id = some call → call.op = .close → call.pc = .done outcome →
      ∀ i, q.calls i = none → ∀ q', Runs Queue.step allowed q q' →
        ∀ call', q'.calls i = some call' → call'.op.item ≠ none →
          ∀ outcome', call'.outcome = some outcome' → outcome' = .error .closed) ∧
    (∀ id call, q.calls id = some call → call.op.receives = true →
      call.outcome = some (.error .closed) →
        q.shared.lock.granted.flatMap q.received = q.shared.channel.accepted.map Prod.snd ∧
        ∀ q', Runs Queue.step allowed q q' →
          q'.shared.channel.accepted = q.shared.channel.accepted) := by
  have hinv := (queueInv_new capacity).of_runs h
  have hreceived : q.shared.lock.granted.flatMap q.received = q.shared.channel.taken.map Prod.snd :=
    hinv.logged.log_eq.symm
  refine ⟨⟨?_, hinv.logged.once.granted_nodup, hinv.logged.mem, hinv.nodup, hinv.sent⟩, ?_,
    fun id call outcome hcall hop hpc i hnone q' hruns call' hcall' hitem outcome' houtcome' => ?_,
    fun id call hcall hop houtcome => ?_⟩
  · rw [hreceived, ← List.map_append, q.shared.channel.log_eq]
  · have hcapacity : q.shared.channel.capacity = capacity := by
      refine (h.invariant (fun x => QueueInv x ∧ x.shared.channel.capacity = capacity)
        ⟨queueInv_new capacity, rfl⟩ ?_).2
      rintro x label x' ⟨hinv, hcapacity⟩ - hstep
      obtain ⟨id, c, hchange⟩ := hinv.change hstep
      exact ⟨hinv.step hstep, hchange.capacity.trans hcapacity⟩
    rw [← hcapacity]
    exact q.shared.channel.bounded
  · have hset : q.shared.shutdown = true := by
      have hknown := hinv.known hcall (show call.outcome = some outcome by rw [Call.outcome, hpc])
      exact hknown.1 (by rw [hop]; rfl)
    have hrefused := refused_of_runs hinv hset hnone hruns call' hcall' hitem
    unfold Call.outcome at houtcome'
    rcases hrefused with h | h | h | h <;> rw [h] at houtcome'
    · exact absurd houtcome' nofun
    · exact absurd houtcome' nofun
    · exact (Option.some.inj houtcome').symm
    · exact absurd houtcome' nofun
  · have hdrained : q.shared.channel.Drained := (hinv.known hcall houtcome).2 hop rfl
    refine ⟨?_, fun q' hruns => (hinv.drained_of_runs hdrained hruns).2⟩
    rw [hreceived, hdrained.taken_eq]

/-! A receiver waits for an item and has the lock when the queue is closed, and is then dropped. A
sender that has checked the token before sends behind it. -/

def closedRun : List (Label ℕ ℕ) :=
  [Label.call 0 .recv, .call 1 (.send 7), .call 2 .close] ++ List.replicate 4 (Label.poll 0) ++
    List.replicate 2 (Label.poll 1) ++ List.replicate 3 (Label.poll 2)

def drainRun : List (Label ℕ ℕ) :=
  [Label.drop 0, .poll 1, .call 3 .recv, .call 4 .tryRecv, .call 5 (.trySend 8)] ++
    List.replicate 6 (Label.poll 3) ++ List.replicate 7 (Label.poll 4) ++
    List.replicate 2 (Label.poll 5)

def closedQueue : Queue ℕ ℕ :=
  (runLabels Queue.step (fun _ _ => true) (.new (some 1)) closedRun).getD (.new (some 1))

def drainedQueue : Queue ℕ ℕ :=
  (runLabels Queue.step (fun _ _ => true) closedQueue drainRun).getD (.new (some 1))

theorem runs_closedQueue : Runs Queue.step (fun _ _ => True) (.new (some 1)) closedQueue :=
  runs_of_runLabels (fun _ _ _ => trivial)
    (show runLabels _ (fun _ _ => true) (.new (some 1)) closedRun = some closedQueue from rfl)

theorem runs_drainedQueue : Runs Queue.step (fun _ _ => True) closedQueue drainedQueue :=
  runs_of_runLabels (fun _ _ _ => trivial)
    (show runLabels _ (fun _ _ => true) closedQueue drainRun = some drainedQueue from rfl)

theorem close_and_drain_example :
    drainedQueue.shared.channel.accepted = [(1, 7)] ∧
      drainedQueue.shared.lock.granted.flatMap drainedQueue.received = [7] ∧
      (∀ call, drainedQueue.calls 5 = some call → call.outcome = some (.error .closed)) := by
  have hdrained := close_and_drain (runs_closedQueue.trans runs_drainedQueue)
  refine ⟨rfl, (hdrained.2.2.2 4 _ rfl rfl rfl).1, fun call hcall => ?_⟩
  obtain rfl := Option.some.inj hcall
  exact congrArg some ((close_and_drain runs_closedQueue).2.2.1 2 _ _ rfl rfl rfl 5 rfl _
    runs_drainedQueue _ rfl nofun _ rfl)

end Queues

end Taunicorn
