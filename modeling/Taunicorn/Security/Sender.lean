import Taunicorn.Security.SecureConnection
import Taunicorn.Transport.Order

/-!
# Concurrent senders

Any number of calls of `SecureConnection::send` on one session, over the connection core they
share with other calls: `send_state` is a fair mutex, and a call that holds it runs the program
`send` with the direction's state read at the acquisition. An operation of that program on the
connection is a call of the core, which takes its own steps.

The other calls on the connection may do anything that hands over no bytes: pause, resume, close,
shut down, flush, receive. Raw writes beside the secure session bypass its framing, and the source
says that applications should not make them.

A call of `send` can be dropped before its first poll, in the queue of `send_state`, and in the
call of the core. Dropping it drops the call of the core first, and then the guard of `send_state`.

## Main results

* `Sender.stepped` — the list of the steps
* `SenderInv.step` — who holds `send_state`, and what its call has come to
* `Sender.Stepped.core_step` — a step of the senders is one of the core, or none
-/

namespace Taunicorn

namespace Security

open StreamProg Transport FifoMutex

/-! ### The machine -/

/-- Where a call of `send` stands. -/
inductive SendPC where
  /-- Not polled yet. -/
  | start
  /-- In the queue of `send_state`, or given it and not polled since. -/
  | locking
  /-- Behind the lock, with the rest of its program. -/
  | running (prog : Prog DirectionState)
  /-- The outcome is fixed, and the guard of `send_state` is to be dropped. `none` for a call that
  was dropped. -/
  | unwind (outcome : Option (Except Error Unit))
  | done (outcome : Except Error Unit)
  | dropped

/-- One call of `send`: its argument, its program counter, and its local `sequence`, which it reads
when it gets `send_state`. -/
structure SendCall where
  plaintext : List UInt8
  pc : SendPC := .start
  sequence : UInt64 := 0

/-- A session's sending side, and the core under it. The calls `ι` are calls of `send`; the calls
`κ` are other calls on the connection. `events` is the ghost history of the primitives called, each
with the call of `send` that called it. -/
structure Sender (ι κ : Type) where
  core : Core (ι ⊕ κ) := {}
  lock : FifoMutex ι := {}
  sendState : DirectionState
  sends : ι → Option SendCall := fun _ => none
  events : List (ι × Event) := []

/-- Who moves. -/
inductive SendLabel (ι κ : Type) where
  | call (id : ι) (plaintext : List UInt8)
  | poll (id : ι)
  | drop (id : ι)
  /-- A step of the core: of the call that a call of `send` waits for, or of another call. -/
  | core (label : Label (ι ⊕ κ))

variable {ι κ : Type} [DecidableEq ι] [DecidableEq κ]

def Sender.set (w : Sender ι κ) (id : ι) (call : SendCall) : Sender ι κ :=
  { w with sends := Function.update w.sends id (some call) }

omit [DecidableEq κ] in
@[simp] theorem Sender.set_sends_self (w : Sender ι κ) (id : ι) (call : SendCall) :
    (w.set id call).sends id = some call := Function.update_self _ _ _

omit [DecidableEq κ] in
@[simp] theorem Sender.set_sends_of_ne (w : Sender ι κ) {id j : ι} (call : SendCall)
    (hne : j ≠ id) : (w.set id call).sends j = w.sends j := Function.update_of_ne hne _ _

/-- The steps of the core that belong to it alone: the calls of the core that a call of `send`
makes and drops are that call's. -/
def ownLabel : Label (ι ⊕ κ) → Bool
  | .call (.inr _) op => op.buffer.isEmpty
  | .poll _ _ => true
  | .drop (.inr _) => true
  | _ => false

variable (cr : Crypto) (transcriptHash : Bytes transcriptHashSize)

/-- One step of a call of `send`. -/
def Sender.poll (w : Sender ι κ) (id : ι) (call : SendCall) : Option (Sender ι κ) :=
  match call.pc with
  | .start => some { w.set id { call with pc := .locking } with lock := w.lock.request id }
  | .locking =>
    if w.lock.holder = some id then
      some (w.set id { call with
        pc := .running (send cr transcriptHash w.sendState call.plaintext)
        sequence := w.sendState.sequence })
    else none
  | .running (.pure state) =>
    some { w.set id { call with pc := .unwind (some (.ok ())) } with sendState := state }
  | .running (.fail e) => some (w.set id { call with pc := .unwind (some (.error e)) })
  | .running (.note event next) =>
    some { w.set id { call with pc := .running next } with events := w.events ++ [(id, event)] }
  | .running (.send bytes next) =>
    match w.core.calls (.inl id) with
    | none => (w.core.step (.call (.inl id) (.send bytes))).map fun core => { w with core := core }
    | some inner =>
      match inner.pc with
      | .done (.ok _) => some (w.set id { call with pc := .running next })
      | .done (.error e) => some (w.set id { call with pc := .unwind (some (.error e)) })
      | _ => none
  | .unwind (some outcome) =>
    some { w.set id { call with pc := .done outcome } with lock := w.lock.leave id }
  | .unwind none => some { w.set id { call with pc := .dropped } with lock := w.lock.leave id }
  -- `send` reads nothing
  | .running (.receive _ _) => none
  | .done _ => none
  | .dropped => none

/-- Drop a call of `send` at one of its await points. -/
def Sender.drop (w : Sender ι κ) (id : ι) (call : SendCall) : Option (Sender ι κ) :=
  match call.pc with
  | .start => some (w.set id { call with pc := .dropped })
  | .locking => some { w.set id { call with pc := .dropped } with lock := w.lock.leave id }
  | .running (.send _ _) =>
    (w.core.step (.drop (.inl id))).map fun core =>
      { w.set id { call with pc := .unwind none } with core := core }
  | _ => none

/-- **One step of the senders.** -/
def Sender.step (w : Sender ι κ) : SendLabel ι κ → Option (Sender ι κ)
  | .call id plaintext =>
    match w.sends id with
    | none => some (w.set id { plaintext := plaintext })
    | some _ => none
  | .poll id => (w.sends id).bind fun call => w.poll cr transcriptHash id call
  | .drop id => (w.sends id).bind fun call => w.drop id call
  | .core label =>
    if ownLabel label then (w.core.step label).map fun core => { w with core := core } else none

/-- A step that drops no call of `send`. -/
def NoSendDropped (_ : Sender ι κ) : SendLabel ι κ → Prop
  | .drop _ => False
  | _ => True

def SendLabel.isDrop : SendLabel ι κ → Bool
  | .drop _ => true
  | _ => false

omit [DecidableEq ι] [DecidableEq κ] in
theorem noSendDropped_of_not_isDrop (w : Sender ι κ) (label : SendLabel ι κ)
    (h : (!label.isDrop) = true) : NoSendDropped w label := by
  cases label with
  | drop id => exact absurd h nofun
  | _ => trivial

/-! ### The steps -/

/-- **The steps of the senders.** -/
inductive Sender.Stepped (w : Sender ι κ) : SendLabel ι κ → Sender ι κ → Prop
  | called (id : ι) (plaintext : List UInt8) : w.sends id = none →
      Stepped w (.call id plaintext) (w.set id { plaintext := plaintext })
  | requested (id : ι) (call : SendCall) : w.sends id = some call → call.pc = .start →
      Stepped w (.poll id)
        { w.set id { call with pc := .locking } with lock := w.lock.request id }
  | locked (id : ι) (call : SendCall) : w.sends id = some call → call.pc = .locking →
      w.lock.holder = some id →
      Stepped w (.poll id) (w.set id { call with
        pc := .running (send cr transcriptHash w.sendState call.plaintext)
        sequence := w.sendState.sequence })
  | committed (id : ι) (call : SendCall) (state : DirectionState) : w.sends id = some call →
      call.pc = .running (.pure state) →
      Stepped w (.poll id)
        { w.set id { call with pc := .unwind (some (.ok ())) } with sendState := state }
  | failed (id : ι) (call : SendCall) (e : Error) : w.sends id = some call →
      call.pc = .running (.fail e) →
      Stepped w (.poll id) (w.set id { call with pc := .unwind (some (.error e)) })
  | noted (id : ι) (call : SendCall) (event : Event) (next : Prog DirectionState) :
      w.sends id = some call → call.pc = .running (.note event next) →
      Stepped w (.poll id)
        { w.set id { call with pc := .running next } with events := w.events ++ [(id, event)] }
  | began (id : ι) (call : SendCall) (bytes : List UInt8) (next : Prog DirectionState)
      (core : Core (ι ⊕ κ)) : w.sends id = some call → call.pc = .running (.send bytes next) →
      w.core.calls (.inl id) = none → w.core.step (.call (.inl id) (.send bytes)) = some core →
      Stepped w (.poll id) { w with core := core }
  | sent (id : ι) (call : SendCall) (bytes : List UInt8) (next : Prog DirectionState)
      (inner : Call) (v : Value) : w.sends id = some call →
      call.pc = .running (.send bytes next) → w.core.calls (.inl id) = some inner →
      inner.pc = .done (.ok v) → Stepped w (.poll id) (w.set id { call with pc := .running next })
  | refused (id : ι) (call : SendCall) (bytes : List UInt8) (next : Prog DirectionState)
      (inner : Call) (e : Error) : w.sends id = some call →
      call.pc = .running (.send bytes next) → w.core.calls (.inl id) = some inner →
      inner.pc = .done (.error e) →
      Stepped w (.poll id) (w.set id { call with pc := .unwind (some (.error e)) })
  | returned (id : ι) (call : SendCall) (outcome : Except Error Unit) : w.sends id = some call →
      call.pc = .unwind (some outcome) →
      Stepped w (.poll id)
        { w.set id { call with pc := .done outcome } with lock := w.lock.leave id }
  | unwound (id : ι) (call : SendCall) : w.sends id = some call → call.pc = .unwind none →
      Stepped w (.poll id) { w.set id { call with pc := .dropped } with lock := w.lock.leave id }
  | droppedStart (id : ι) (call : SendCall) : w.sends id = some call → call.pc = .start →
      Stepped w (.drop id) (w.set id { call with pc := .dropped })
  | droppedLocking (id : ι) (call : SendCall) : w.sends id = some call → call.pc = .locking →
      Stepped w (.drop id) { w.set id { call with pc := .dropped } with lock := w.lock.leave id }
  | droppedSending (id : ι) (call : SendCall) (bytes : List UInt8) (next : Prog DirectionState)
      (core : Core (ι ⊕ κ)) : w.sends id = some call → call.pc = .running (.send bytes next) →
      w.core.step (.drop (.inl id)) = some core →
      Stepped w (.drop id) { w.set id { call with pc := .unwind none } with core := core }
  | beside (label : Label (ι ⊕ κ)) (core : Core (ι ⊕ κ)) : ownLabel label = true →
      w.core.step label = some core → Stepped w (.core label) { w with core := core }

variable {cr transcriptHash} {w w' : Sender ι κ} {label : SendLabel ι κ} {id j : ι}
  {call : SendCall}

theorem Sender.stepped_of_poll (hcall : w.sends id = some call)
    (h : w.poll cr transcriptHash id call = some w') :
    w.Stepped cr transcriptHash (.poll id) w' := by
  unfold Sender.poll at h
  split at h
  case h_1 hpc => cases h; exact .requested id call hcall hpc
  case h_2 hpc =>
    split_ifs at h with hholder
    cases h; exact .locked id call hcall hpc hholder
  case h_3 state hpc => cases h; exact .committed id call state hcall hpc
  case h_4 e hpc => cases h; exact .failed id call e hcall hpc
  case h_5 event next hpc => cases h; exact .noted id call event next hcall hpc
  case h_6 bytes next hpc =>
    split at h
    · next hnone =>
      obtain ⟨core, hcore, rfl⟩ := Option.map_eq_some_iff.mp h
      exact .began id call bytes next core hcall hpc hnone hcore
    · next inner hinner =>
      split at h
      · next v hv => cases h; exact .sent id call bytes next inner v hcall hpc hinner hv
      · next e he => cases h; exact .refused id call bytes next inner e hcall hpc hinner he
      · exact absurd h nofun
  case h_7 outcome hpc => cases h; exact .returned id call outcome hcall hpc
  case h_8 hpc => cases h; exact .unwound id call hcall hpc
  all_goals exact absurd h nofun

theorem Sender.stepped (h : w.step cr transcriptHash label = some w') :
    w.Stepped cr transcriptHash label w' := by
  unfold Sender.step at h
  split at h
  case h_1 id plaintext =>
    split at h
    · next hnone => cases h; exact .called id plaintext hnone
    · exact absurd h nofun
  case h_2 id =>
    obtain ⟨call, hcall, hpoll⟩ := Option.bind_eq_some_iff.mp h
    exact Sender.stepped_of_poll hcall hpoll
  case h_3 id =>
    obtain ⟨call, hcall, hdrop⟩ := Option.bind_eq_some_iff.mp h
    unfold Sender.drop at hdrop
    split at hdrop
    · next hpc => cases hdrop; exact .droppedStart id call hcall hpc
    · next hpc => cases hdrop; exact .droppedLocking id call hcall hpc
    · next bytes next hpc =>
      obtain ⟨core, hcore, rfl⟩ := Option.map_eq_some_iff.mp hdrop
      exact .droppedSending id call bytes next core hcall hpc hcore
    · exact absurd hdrop nofun
  case h_4 label =>
    split_ifs at h with hown
    obtain ⟨core, hcore, rfl⟩ := Option.map_eq_some_iff.mp h
    exact .beside label core hown hcore

/-! ### The rest of a program -/

variable (cr transcriptHash)

/-- What can be left of `send`, and what its call of the core has come to. -/
inductive Residual (state : DirectionState) (plaintext : List UInt8) :
    Option Call → Prog DirectionState → Prop
  | failed (e : Error) : Residual state plaintext none (.fail e)
  | sealing {rest : Prog DirectionState} : Residual state plaintext none rest →
      Residual state plaintext none (.note (sealEvent cr transcriptHash state plaintext) rest)
  | handing {next : UInt64} {bytes : List UInt8} {inner : Option Call} :
      checkedSucc state.sequence = some next → IsFrameOf cr transcriptHash state plaintext bytes →
      (∀ c, inner = some c → c.op = .send bytes) →
      Residual state plaintext inner (.send bytes (.pure { state with sequence := next }))
  | handed {next : UInt64} {bytes : List UInt8} {inner : Call} {v : Value} :
      checkedSucc state.sequence = some next → IsFrameOf cr transcriptHash state plaintext bytes →
      inner.op = .send bytes → inner.pc = .done (.ok v) →
      Residual state plaintext (some inner) (.pure { state with sequence := next })

theorem residual_send (state : DirectionState) (plaintext : List UInt8) :
    Residual cr transcriptHash state plaintext none (send cr transcriptHash state plaintext) := by
  cases hnext : checkedSucc state.sequence with
  | none =>
    rw [send, hnext]
    exact .failed _
  | some next =>
    rw [send_eq hnext, encrypt, note_bind]
    refine .sealing ?_
    cases hciphertext :
        cr.encrypt state.cipher state.nonce (state.aad transcriptHash) plaintext with
    | none => exact .failed _
    | some ciphertext =>
      rw [okOrElse_some, pure_bind, writeFrame]
      cases hframe : frame (encryptedFrame (toBeBytes state.sequence) ciphertext) with
      | error e => exact .failed e
      | ok bytes => exact .handing hnext ⟨ciphertext, hciphertext, hframe⟩ fun _ h => by cases h

variable {cr transcriptHash} in
theorem Residual.of_send {state : DirectionState} {plaintext bytes : List UInt8}
    {inner : Option Call} {rest : Prog DirectionState}
    (h : Residual cr transcriptHash state plaintext inner (.send bytes rest)) :
    ∃ next, rest = .pure { state with sequence := next } ∧
      checkedSucc state.sequence = some next ∧ IsFrameOf cr transcriptHash state plaintext bytes ∧
      ∀ c, inner = some c → c.op = .send bytes := by
  cases h with
  | handing hnext hframe hop => exact ⟨_, rfl, hnext, hframe, hop⟩

/-! ### The invariant -/

/-- Where a call of `send` stands at the lock. -/
def SendPC.place : SendPC → Place
  | .start => .away
  | .locking => .waiting
  | .running _ => .holding
  | .unwind _ => .holding
  | .done _ => .left
  | .dropped => .left

/-- What an outcome says of the call of the core. -/
def Ended (inner : Option Call) : Option (Except Error Unit) → Prop
  | some (.ok _) => ∃ c v, inner = some c ∧ c.pc = .done (.ok v)
  | some (.error _) => ∀ c, inner = some c → ∃ e, c.pc = .done (.error e)
  | none => ∀ c, inner = some c → c.pc = .dropped

/-- A call of `send` and its call of the core fit together. -/
def Fit (state : DirectionState) (call : SendCall) (inner : Option Call) : Prop :=
  (∀ c, inner = some c → ∃ bytes, c.op = .send bytes ∧
      IsFrameOf cr transcriptHash { state with sequence := call.sequence } call.plaintext bytes) ∧
    match call.pc with
    | .start => inner = none
    | .locking => inner = none
    | .running prog => call.sequence = state.sequence ∧
        Residual cr transcriptHash state call.plaintext inner prog
    | .unwind outcome => Ended inner outcome
    | .done outcome => Ended inner (some outcome)
    | .dropped => Ended inner none

/-- **The invariant of the senders.** The states of the direction differ in their sequence numbers
only. -/
structure SenderInv (state : DirectionState) (w : Sender ι κ) : Prop where
  once : w.lock.Once
  at_place : ∀ id, w.lock.At id ((w.sends id).elim .away fun call => call.pc.place)
  base : w.sendState = { state with sequence := w.sendState.sequence }
  fit : ∀ id call, w.sends id = some call →
    Fit cr transcriptHash w.sendState call (w.core.calls (.inl id))
  absent : ∀ id, w.sends id = none → w.core.calls (.inl id) = none
  others : ∀ k c, w.core.calls (.inr k) = some c → c.op.buffer = []

variable {cr transcriptHash} {state : DirectionState} {inner : Option Call} {c c' : Call}

/-- Fitting sees the sequence number of the direction only behind the lock. -/
theorem Fit.of_not_holding (h : Fit cr transcriptHash state call inner)
    (hplace : call.pc.place ≠ .holding) (sequence : UInt64) :
    Fit cr transcriptHash { state with sequence := sequence } call inner := by
  refine ⟨h.1, ?_⟩
  have hstage := h.2
  cases hpc : call.pc <;> rw [hpc] at hplace hstage
  case running => exact absurd rfl hplace
  case unwind => exact absurd rfl hplace
  all_goals exact hstage

/-- A call of the core that is under way belongs to a call of `send` behind the lock. -/
theorem Fit.running (h : Fit cr transcriptHash state call (some c)) (hlive : c.pc.Live) :
    ∃ bytes next, call.pc = .running (.send bytes (.pure { state with sequence := next })) ∧
      checkedSucc state.sequence = some next ∧ call.sequence = state.sequence ∧
      IsFrameOf cr transcriptHash state call.plaintext bytes ∧ c.op = .send bytes := by
  have hended : ∀ outcome, ¬Ended (some c) outcome := by
    rintro (_ | _ | _) hended
    · rw [hended c rfl] at hlive
      exact hlive
    · obtain ⟨e, he⟩ := hended c rfl
      rw [he] at hlive
      exact hlive
    · obtain ⟨c', v, hc', hv⟩ := hended
      obtain rfl := Option.some.inj hc'
      rw [hv] at hlive
      exact hlive
  have hstage := h.2
  cases hpc : call.pc <;> rw [hpc] at hstage
  case start => exact absurd hstage nofun
  case locking => exact absurd hstage nofun
  case running prog =>
    obtain ⟨hsequence, hresidual⟩ := hstage
    cases hresidual with
    | handing hnext hframe hop => exact ⟨_, _, rfl, hnext, hsequence, hframe, hop c rfl⟩
    | handed _ _ _ hdone =>
      rw [hdone] at hlive
      exact hlive.elim
  all_goals exact (hended _ hstage).elim

/-- A step of the call of the core. -/
theorem Fit.inner_step (h : Fit cr transcriptHash state call (some c)) (hlive : c.pc.Live)
    (hop : c'.op = c.op) : Fit cr transcriptHash state call (some c') := by
  obtain ⟨bytes, next, hpc, hnext, hsequence, hframe, hsend⟩ := h.running hlive
  refine ⟨fun c'' hc'' => ?_, ?_⟩
  · obtain rfl := Option.some.inj hc''
    rw [hop]
    exact h.1 c rfl
  · rw [hpc]
    refine ⟨hsequence, .handing hnext hframe fun c'' hc'' => ?_⟩
    obtain rfl := Option.some.inj hc''
    rw [hop, hsend]

/-! ### The invariant is kept -/

variable (cr transcriptHash) in
/-- What a step does to the call of `send` that makes it, and through it. -/
structure SendChange (w : Sender ι κ) (id : ι) (call : SendCall) (w' : Sender ι κ) : Prop where
  sends : w'.sends = Function.update w.sends id (some call)
  move : w.lock.Move id ((w.sends id).elim .away fun call => call.pc.place) w'.lock call.pc.place
  calls : ∀ c, c ≠ .inl id → w'.core.calls c = w.core.calls c
  fit : Fit cr transcriptHash w'.sendState call (w'.core.calls (.inl id))
  /-- Only the holder of the lock changes the direction's state. -/
  state : w'.sendState = w.sendState ∨ w.lock.holder = some id ∧
    ∃ sequence, w'.sendState = { w.sendState with sequence := sequence }

omit [DecidableEq κ] in
theorem SendChange.sends_self (h : SendChange cr transcriptHash w id call w') :
    w'.sends id = some call := by
  rw [h.sends, Function.update_self]

omit [DecidableEq κ] in
theorem SendChange.sends_of_ne (h : SendChange cr transcriptHash w id call w') (hne : j ≠ id) :
    w'.sends j = w.sends j := by
  rw [h.sends, Function.update_of_ne hne]

omit [DecidableEq ι] [DecidableEq κ] in
theorem SenderInv.holder (hinv : SenderInv cr transcriptHash state w) (h : w.sends id = some call)
    (hplace : call.pc.place = .holding) : w.lock.holder = some id := by
  have hat := hinv.at_place id
  rw [h, Option.elim_some, hplace] at hat
  exact hat

omit [DecidableEq κ] in
theorem SendChange.inv (h : SendChange cr transcriptHash w id call w')
    (hinv : SenderInv cr transcriptHash state w) : SenderInv cr transcriptHash state w' := by
  refine ⟨h.move.once hinv.once (hinv.at_place id), fun j => ?_, ?_, fun j c hc => ?_,
    fun j hj => ?_, fun k c hc => hinv.others k c ((h.calls (.inr k) nofun).symm.trans hc)⟩
  · by_cases hj : j = id
    · subst hj
      rw [h.sends_self]
      exact h.move.at_self hinv.once (hinv.at_place j)
    · rw [h.sends_of_ne hj]
      exact h.move.at_of_ne hinv.once (hinv.at_place j) hj
  · rcases h.state with heq | ⟨-, sequence, heq⟩
    · rw [heq]
      exact hinv.base
    · rw [heq]
      conv_lhs => rw [hinv.base]
  · by_cases hj : j = id
    · subst hj
      obtain rfl := Option.some.inj (h.sends_self.symm.trans hc)
      exact h.fit
    · rw [h.sends_of_ne hj] at hc
      have hfit := hinv.fit j c hc
      rw [h.calls _ fun heq => hj (Sum.inl.inj heq)]
      rcases h.state with heq | ⟨hholder, sequence, heq⟩
      · rwa [heq]
      · rw [heq]
        exact hfit.of_not_holding (fun hplace => hj (Option.some.inj
          ((hinv.holder hc hplace).symm.trans hholder))) sequence
  · have hne : j ≠ id := by
      rintro rfl
      exact absurd (h.sends_self.symm.trans hj) nofun
    rw [h.sends_of_ne hne] at hj
    rw [h.calls _ fun heq => hne (Sum.inl.inj heq)]
    exact hinv.absent j hj

/-- A step that is one of the core alone. -/
theorem SenderInv.core_step (hinv : SenderInv cr transcriptHash state w) {l : Label (ι ⊕ κ)}
    {core : Core (ι ⊕ κ)} (hown : ownLabel l = true) (h : w.core.step l = some core) :
    SenderInv cr transcriptHash state { w with core := core } := by
  obtain ⟨c, inner, hstepped⟩ := Core.stepped h
  obtain ⟨hcalls, hold⟩ := hstepped.calls
  refine ⟨hinv.once, hinv.at_place, hinv.base, fun j call hj => ?_, fun j hj => ?_,
    fun k c' hc' => ?_⟩
  · have hfit := hinv.fit j call hj
    change Fit cr transcriptHash w.sendState call (core.calls (.inl j))
    rw [hcalls]
    by_cases heq : .inl j = c
    · subst heq
      rw [Function.update_self]
      cases hstepped with
      | called _ op hnone => exact absurd hown Bool.false_ne_true
      | polled _ choice old _ effect hcall hop hpolled =>
        rw [hcall] at hfit
        exact hfit.inner_step hpolled.live hop
      | dropped _ old effect hcall hdrop => exact absurd hown Bool.false_ne_true
    · rwa [Function.update_of_ne heq]
  · change core.calls (.inl j) = none
    have hnone := hinv.absent j hj
    rw [hcalls]
    by_cases heq : .inl j = c
    · subst heq
      cases hstepped with
      | called _ op _ => exact absurd hown Bool.false_ne_true
      | polled _ choice old _ effect hcall hop hpolled =>
        exact absurd (hnone.symm.trans hcall) nofun
      | dropped _ old effect hcall hdrop => exact absurd hown Bool.false_ne_true
    · rwa [Function.update_of_ne heq]
  · rw [show core.calls (.inr k) = _ from congrFun hcalls _] at hc'
    by_cases heq : .inr k = c
    · subst heq
      rw [Function.update_self, Option.some.injEq] at hc'
      subst hc'
      cases hstepped with
      | called _ op hnone => simpa [ownLabel] using hown
      | polled _ choice old _ effect hcall hop hpolled => exact hop ▸ hinv.others k old hcall
      | dropped _ old effect hcall hdrop => exact hinv.others k old hcall
    · rw [Function.update_of_ne heq] at hc'
      exact hinv.others k c' hc'

omit [DecidableEq κ] in
/-- A step of a call of `send` that leaves the lock and the direction's state alone. -/
theorem SendChange.of_place {call' : SendCall} {core : Core (ι ⊕ κ)}
    {events : List (ι × Event)} (hcall : w.sends id = some call)
    (hplace : call'.pc.place = call.pc.place)
    (hcalls : ∀ c, c ≠ .inl id → core.calls c = w.core.calls c)
    (hfit : Fit cr transcriptHash w.sendState call' (core.calls (.inl id))) :
    SendChange cr transcriptHash w id call'
      { w.set id call' with core := core, events := events } where
  sends := rfl
  move := by
    rw [hcall, Option.elim_some, hplace]
    exact .stay _
  calls := hcalls
  fit := hfit
  state := Or.inl rfl

/-- Every step is such a change, or one of the core alone. -/
theorem Sender.Stepped.change (h : w.Stepped cr transcriptHash label w')
    (hinv : SenderInv cr transcriptHash state w) :
    (∃ id call, SendChange cr transcriptHash w id call w') ∨
      ∃ l core, label = .core l ∧ ownLabel l = true ∧ w.core.step l = some core ∧
        w' = { w with core := core } := by
  cases h with
  | called id plaintext hnone =>
    refine Or.inl ⟨id, _, rfl, ?_, fun _ _ => rfl, ?_, Or.inl rfl⟩
    · rw [hnone]
      exact .stay _
    · change Fit cr transcriptHash w.sendState _ (w.core.calls (.inl id))
      rw [hinv.absent id hnone]
      exact ⟨fun _ h => (nomatch h), rfl⟩
  | requested id call hcall hpc =>
    have hfit := hinv.fit id call hcall
    have hstage := hfit.2
    rw [hpc] at hstage
    refine Or.inl ⟨id, _, rfl, ?_, fun _ _ => rfl, ⟨hfit.1, hstage⟩, Or.inl rfl⟩
    rw [hcall, Option.elim_some, hpc]
    exact .request
  | locked id call hcall hpc hholder =>
    have hstage := (hinv.fit id call hcall).2
    rw [hpc] at hstage
    refine Or.inl ⟨id, _, rfl, ?_, fun _ _ => rfl, ?_, Or.inl rfl⟩
    · rw [hcall, Option.elim_some, hpc]
      exact .granted hholder
    · change Fit cr transcriptHash w.sendState _ (w.core.calls (.inl id))
      rw [show w.core.calls (.inl id) = none from hstage]
      exact ⟨fun _ h => (nomatch h), rfl, residual_send cr transcriptHash _ _⟩
  | committed id call state' hcall hpc =>
    have hfit := hinv.fit id call hcall
    obtain ⟨hframe, hstage⟩ := hfit
    rw [hpc] at hstage
    obtain ⟨hsequence, hresidual⟩ := hstage
    generalize hinner : w.core.calls (.inl id) = inner at hresidual hframe
    cases hresidual with
    | @handed next bytes c v hnext _ hop hdone =>
      have hplace : call.pc.place = .holding := by rw [hpc]; rfl
      refine Or.inl ⟨id, _, rfl, ?_, fun _ _ => rfl, ?_,
        Or.inr ⟨hinv.holder hcall hplace, next, rfl⟩⟩
      · rw [hcall, Option.elim_some, hplace]
        exact .stay _
      · change Fit cr transcriptHash { w.sendState with sequence := next } _
          (w.core.calls (.inl id))
        rw [hinner]
        exact ⟨hframe, c, v, rfl, hdone⟩
  | failed id call e hcall hpc =>
    obtain ⟨hframe, hstage⟩ := hinv.fit id call hcall
    rw [hpc] at hstage
    refine Or.inl ⟨id, _, SendChange.of_place hcall (by rw [hpc]; rfl) (fun _ _ => rfl)
      ⟨hframe, ?_⟩⟩
    generalize hinner : w.core.calls (.inl id) = inner at hstage
    cases hstage.2
    exact fun _ h => nomatch h
  | noted id call event next hcall hpc =>
    obtain ⟨hframe, hstage⟩ := hinv.fit id call hcall
    rw [hpc] at hstage
    obtain ⟨hsequence, hresidual⟩ := hstage
    refine Or.inl ⟨id, _, SendChange.of_place hcall (by rw [hpc]; rfl) (fun _ _ => rfl)
      ⟨hframe, hsequence, ?_⟩⟩
    change Residual cr transcriptHash w.sendState call.plaintext (w.core.calls (.inl id)) next
    generalize w.core.calls (.inl id) = inner at hresidual
    cases hresidual with
    | sealing hrest => exact hrest
  | began id call bytes next core hcall hpc hnone hcore =>
    obtain ⟨-, hstage⟩ := hinv.fit id call hcall
    rw [hpc] at hstage
    obtain ⟨hsequence, hresidual⟩ := hstage
    obtain ⟨c, inner, hstepped⟩ := Core.stepped hcore
    cases hstepped
    refine Or.inl ⟨id, call, (Function.update_eq_self_iff.mpr hcall.symm).symm, ?_,
      fun c hne => Function.update_of_ne hne _ _, ?_, Or.inl rfl⟩
    · rw [hcall, Option.elim_some]
      exact .stay _
    · change Fit cr transcriptHash w.sendState call
        (Function.update w.core.calls (.inl id) (some { op := .send bytes }) (.inl id))
      rw [Function.update_self]
      obtain ⟨next, rfl, hnext, hframe, -⟩ := hresidual.of_send
      refine ⟨fun c hc => ?_, ?_⟩
      · obtain rfl := Option.some.inj hc
        exact ⟨bytes, rfl, hsequence ▸ hframe⟩
      · rw [hpc]
        refine ⟨hsequence, .handing hnext hframe fun c hc => ?_⟩
        obtain rfl := Option.some.inj hc
        rfl
  | sent id call bytes next inner v hcall hpc hinner hdone =>
    obtain ⟨hframe, hstage⟩ := hinv.fit id call hcall
    rw [hpc] at hstage
    obtain ⟨hsequence, hresidual⟩ := hstage
    refine Or.inl ⟨id, _, SendChange.of_place hcall (by rw [hpc]; rfl) (fun _ _ => rfl)
      ⟨hframe, hsequence, ?_⟩⟩
    obtain ⟨next, rfl, hnext, hsealed, hop⟩ := hresidual.of_send
    change Residual cr transcriptHash w.sendState call.plaintext (w.core.calls (.inl id)) _
    rw [hinner]
    exact .handed hnext hsealed (hop inner hinner) hdone
  | refused id call bytes next inner e hcall hpc hinner hdone =>
    obtain ⟨hframe, hstage⟩ := hinv.fit id call hcall
    refine Or.inl ⟨id, _, SendChange.of_place hcall (by rw [hpc]; rfl) (fun _ _ => rfl)
      ⟨hframe, fun c hc => ⟨e, ?_⟩⟩⟩
    obtain rfl := Option.some.inj (hinner.symm.trans hc)
    exact hdone
  | returned id call outcome hcall hpc =>
    obtain ⟨hframe, hstage⟩ := hinv.fit id call hcall
    rw [hpc] at hstage
    refine Or.inl ⟨id, _, rfl, ?_, fun _ _ => rfl, ⟨hframe, hstage⟩, Or.inl rfl⟩
    exact .leave _
  | unwound id call hcall hpc =>
    obtain ⟨hframe, hstage⟩ := hinv.fit id call hcall
    rw [hpc] at hstage
    refine Or.inl ⟨id, _, rfl, ?_, fun _ _ => rfl, ⟨hframe, hstage⟩, Or.inl rfl⟩
    exact .leave _
  | droppedStart id call hcall hpc =>
    obtain ⟨hframe, hstage⟩ := hinv.fit id call hcall
    rw [hpc] at hstage
    refine Or.inl ⟨id, _, rfl, ?_, fun _ _ => rfl, ⟨hframe, ?_⟩, Or.inl rfl⟩
    · rw [hcall, Option.elim_some, hpc]
      exact .giveUp
    · exact fun c hc =>
        absurd ((show w.core.calls (.inl id) = none from hstage).symm.trans hc) nofun
  | droppedLocking id call hcall hpc =>
    obtain ⟨hframe, hstage⟩ := hinv.fit id call hcall
    rw [hpc] at hstage
    refine Or.inl ⟨id, _, rfl, .leave _, fun _ _ => rfl, ⟨hframe, ?_⟩, Or.inl rfl⟩
    exact fun c hc => absurd ((show w.core.calls (.inl id) = none from hstage).symm.trans hc) nofun
  | droppedSending id call bytes next core hcall hpc hcore =>
    obtain ⟨hframe, -⟩ := hinv.fit id call hcall
    obtain ⟨c, inner, hstepped⟩ := Core.stepped hcore
    cases hstepped with
    | dropped _ old effect hold _ =>
      refine Or.inl ⟨id, _, SendChange.of_place hcall (by rw [hpc]; rfl)
        (fun c hne => Function.update_of_ne hne _ _) ?_⟩
      dsimp only
      rw [Function.update_self]
      refine ⟨fun c hc => ?_, fun c hc => ?_⟩
      · obtain rfl := Option.some.inj hc
        exact hframe old hold
      · obtain rfl := Option.some.inj hc
        rfl
  | beside l core hown hcore => exact Or.inr ⟨l, core, rfl, hown, hcore, rfl⟩

theorem SenderInv.step (hinv : SenderInv cr transcriptHash state w)
    (h : w.step cr transcriptHash label = some w') : SenderInv cr transcriptHash state w' := by
  rcases (Sender.stepped h).change hinv with ⟨id, call, hchange⟩ | ⟨l, core, -, hown, hcore, rfl⟩
  · exact hchange.inv hinv
  · exact hinv.core_step hown hcore

/-! ### The core under the senders -/

/-- A session that nobody has sent on yet. -/
def Sender.init (connection : SecureConnection) : Sender ι κ where
  sendState := connection.sendState

omit [DecidableEq ι] [DecidableEq κ] in
theorem senderInv_init (connection : SecureConnection) :
    SenderInv cr transcriptHash connection.sendState (Sender.init connection : Sender ι κ) where
  once := once_empty
  at_place _ := ⟨List.not_mem_nil, List.not_mem_nil⟩
  base := rfl
  fit _ _ h := nomatch h
  absent _ _ := rfl
  others _ _ h := nomatch h

/-- **A step of the senders is a step of the core**, or none. It drops no call with bytes to hand
over, unless it drops a call of `send`. -/
theorem Sender.Stepped.core_step (h : w.Stepped cr transcriptHash label w')
    (hinv : SenderInv cr transcriptHash state w) (hdrop : NoSendDropped w label) :
    w'.core = w.core ∨
      w'.lock = w.lock ∧ w'.sendState = w.sendState ∧ w'.sends = w.sends ∧
        ∃ l, KeepsWriters w.core l ∧ w.core.step l = some w'.core := by
  cases h with
  | began id call bytes next core hcall hpc hnone hcore =>
    exact Or.inr ⟨rfl, rfl, rfl, .call (.inl id) (.send bytes), trivial, hcore⟩
  | droppedSending => exact hdrop.elim
  | beside l core hown hcore =>
    refine Or.inr ⟨rfl, rfl, rfl, l, ?_, hcore⟩
    cases l with
    | call id op => trivial
    | poll id choice => trivial
    | drop id =>
      cases id with
      | inl id => exact absurd hown Bool.false_ne_true
      | inr k => exact fun c hc => hinv.others k c hc
  | _ => exact Or.inl rfl

end Security

end Taunicorn
