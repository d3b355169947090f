import Mathlib.Data.List.Basic
import Mathlib.Tactic.Common

/-!
# Programs over a byte stream

A sequential program that talks to one ordered byte stream is a tree: it returns, fails, asks
for at most `max` bytes, hands over a byte string, or records an event. The branches of a read
are indexed by what the stream may answer, so a loop that reassembles a message is a recursive
definition and not a piece of syntax.

A failed read or write ends the program with the stream's error. That is the `?` of the
languages such programs are written in, and it keeps error plumbing out of every definition.

## Three ways to run one tree

* `StreamProg.run` — alone, against a `Feed` that says how the incoming bytes are cut into chunks
  and where the stream errs
* `StreamProg.Step` — against an arbitrary peer, which answers every operation as it likes
* `StreamProg.Always` — the predicate transformer for the second: a property of the events so
  far that holds at every point of every such run

`StreamProg.resume` runs a program as far as it goes in one poll.

`note` is the ghost operation. It has no effect on the stream, and only the predicates that talk
about events see it.

## Main results

* `StreamProg.run_bind` — runs compose
* `StreamProg.Always.bind`, `StreamProg.Returns.bind` — the sequencing rules
* `StreamProg.Always.step`, `StreamProg.Always.here` — soundness
* `StreamProg.run_silence` — events have no effect on a run
* `StreamProg.resume_steps` — polls are runs
-/

/-- What one read of a byte stream answers. -/
inductive Received where
  /-- The next bytes of the stream. -/
  | data (chunk : List UInt8)
  /-- The peer has finished its direction. -/
  | endOfStream
  deriving DecidableEq, Repr

/-- A program over one byte stream, with errors `ε`, recorded events `ν` and result `α`. -/
inductive StreamProg (ε ν α : Type) where
  | pure (a : α)
  | fail (e : ε)
  | receive (max : ℕ) (next : Received → StreamProg ε ν α)
  | send (bytes : List UInt8) (next : StreamProg ε ν α)
  | note (event : ν) (next : StreamProg ε ν α)

namespace StreamProg

variable {ε ν α β γ : Type}

/-! ### Sequencing -/

/-- Run `p`, then `f` on its result. A failure of `p` is the failure of the whole. -/
protected def bind : StreamProg ε ν α → (α → StreamProg ε ν β) → StreamProg ε ν β
  | .pure a, f => f a
  | .fail e, _ => .fail e
  | .receive max next, f => .receive max fun r => (next r).bind f
  | .send bytes next, f => .send bytes (next.bind f)
  | .note event next, f => .note event (next.bind f)

instance : Monad (StreamProg ε ν) where
  pure := .pure
  bind := .bind

@[simp] theorem pure_eq (a : α) : (Pure.pure a : StreamProg ε ν α) = .pure a := rfl

@[simp] theorem pure_bind (a : α) (f : α → StreamProg ε ν β) :
    ((.pure a : StreamProg ε ν α) >>= f) = f a := rfl

@[simp] theorem fail_bind (e : ε) (f : α → StreamProg ε ν β) :
    ((.fail e : StreamProg ε ν α) >>= f) = .fail e := rfl

@[simp] theorem receive_bind (max : ℕ) (next : Received → StreamProg ε ν α)
    (f : α → StreamProg ε ν β) : (receive max next >>= f) = receive max fun r => next r >>= f := rfl

@[simp] theorem send_bind (bytes : List UInt8) (next : StreamProg ε ν α)
    (f : α → StreamProg ε ν β) : (send bytes next >>= f) = send bytes (next >>= f) := rfl

@[simp] theorem note_bind (event : ν) (next : StreamProg ε ν α)
    (f : α → StreamProg ε ν β) : (note event next >>= f) = note event (next >>= f) := rfl

private theorem bind_pure' (p : StreamProg ε ν α) : (id <$> p) = p := by
  change StreamProg.bind p (fun a => .pure a) = p
  induction p with
  | pure a => rfl
  | fail e => rfl
  | receive max next ih => simp only [StreamProg.bind, ih]
  | send bytes next ih => simp only [StreamProg.bind, ih]
  | note event next ih => simp only [StreamProg.bind, ih]

private theorem bind_assoc' (p : StreamProg ε ν α) (f : α → StreamProg ε ν β)
    (g : β → StreamProg ε ν γ) : (p >>= f >>= g) = p >>= fun a => f a >>= g := by
  change StreamProg.bind (StreamProg.bind p f) g = StreamProg.bind p fun a => (f a).bind g
  induction p with
  | pure a => rfl
  | fail e => rfl
  | receive max next ih => simp only [StreamProg.bind, ih]
  | send bytes next ih => simp only [StreamProg.bind, ih]
  | note event next ih => simp only [StreamProg.bind, ih]

instance : LawfulMonad (StreamProg ε ν) :=
  LawfulMonad.mk' _ bind_pure' (fun _ _ => rfl) bind_assoc'

/-- A pure computation that may fail, as a program. -/
def ofExcept : Except ε α → StreamProg ε ν α
  | .ok a => .pure a
  | .error e => .fail e

@[simp] theorem ofExcept_ok (a : α) : (ofExcept (.ok a) : StreamProg ε ν α) = .pure a := rfl

@[simp] theorem ofExcept_error (e : ε) : (ofExcept (.error e) : StreamProg ε ν α) = .fail e := rfl

/-! ### Running against a chunked stream -/

/-- The incoming side of a stream: chunks, cut wherever the transport cuts them, and errors. An
empty feed is a stream its sender has closed. -/
abbrev Feed (ε : Type) := List (Except ε (List UInt8))

/-- The bytes of a feed, errors left out. -/
def Feed.bytes : Feed ε → List UInt8
  | [] => []
  | .ok chunk :: feed => chunk ++ Feed.bytes feed
  | .error _ :: feed => Feed.bytes feed

/-- Everything one run leaves behind. -/
@[ext] structure Run (ε ν α : Type) where
  /-- The value returned, or the error. -/
  result : Except ε α
  /-- What the run has not read. -/
  rest : Feed ε
  /-- What the run handed over. -/
  sent : List UInt8
  /-- The events it recorded, in order. -/
  notes : List ν

/-- The bytes of a chunk that a read of at most `max` bytes leaves for the next one. -/
def leftover (max : ℕ) (chunk : List UInt8) (feed : Feed ε) : Feed ε :=
  if chunk.length ≤ max then feed else .ok (chunk.drop max) :: feed

/-- Run a program against a feed. A read never joins two chunks, and never takes more than it
asked for. -/
def run : StreamProg ε ν α → Feed ε → Run ε ν α
  | .pure a, feed => ⟨.ok a, feed, [], []⟩
  | .fail e, feed => ⟨.error e, feed, [], []⟩
  | .receive _ next, [] => (next .endOfStream).run []
  | .receive _ _, .error e :: feed => ⟨.error e, feed, [], []⟩
  | .receive max next, .ok chunk :: feed =>
    (next (.data (chunk.take max))).run (leftover max chunk feed)
  | .send bytes next, feed =>
    let r := next.run feed
    { r with sent := bytes ++ r.sent }
  | .note event next, feed =>
    let r := next.run feed
    { r with notes := event :: r.notes }

/-- Continue a run with the program its result selects. -/
def Run.andThen (r : Run ε ν α) (f : α → StreamProg ε ν β) : Run ε ν β :=
  match r.result with
  | .ok a =>
    let r' := (f a).run r.rest
    ⟨r'.result, r'.rest, r.sent ++ r'.sent, r.notes ++ r'.notes⟩
  | .error e => ⟨.error e, r.rest, r.sent, r.notes⟩

/-- **Runs compose.** -/
theorem run_bind (p : StreamProg ε ν α) (f : α → StreamProg ε ν β) (feed : Feed ε) :
    (p >>= f).run feed = (p.run feed).andThen f := by
  induction p generalizing feed with
  | pure a => simp [run, Run.andThen]
  | fail e => simp [run, Run.andThen]
  | receive max next ih =>
    rw [receive_bind]
    rcases feed with _ | ⟨_ | _, _⟩ <;> simp [run, Run.andThen, ih]
  | send bytes next ih =>
    rw [send_bind, run, ih, run]
    cases h : (next.run feed).result <;> simp [Run.andThen, h]
  | note event next ih =>
    rw [note_bind, run, ih, run]
    cases h : (next.run feed).result <;> simp [Run.andThen, h]

/-- `Cut bytes feed`: the feed delivers exactly `bytes`, without an error, in chunks of one or
more bytes, and then ends. -/
inductive Cut : List UInt8 → Feed ε → Prop
  | nil : Cut [] []
  | cons {chunk bytes : List UInt8} {feed : Feed ε} : chunk ≠ [] → Cut bytes feed →
      Cut (chunk ++ bytes) (.ok chunk :: feed)

theorem Cut.eq_nil {feed : Feed ε} (h : Cut [] feed) : feed = [] := by
  generalize hb : ([] : List UInt8) = bytes at h
  cases h with
  | nil => rfl
  | cons hne _ => exact absurd (List.append_eq_nil_iff.mp hb.symm).1 hne

/-- **One read of a cut stream.** Asking for at most `max` of the bytes to come gives a non-empty
prefix of them, no longer than asked, and leaves a cut of the rest. -/
theorem Cut.receive {bytes : List UInt8} {feed : Feed ε} (h : Cut bytes feed) (hne : bytes ≠ [])
    {max : ℕ} (hmax : 0 < max) (next : Received → StreamProg ε ν α) :
    ∃ chunk rest feed', bytes = chunk ++ rest ∧ chunk ≠ [] ∧ chunk.length ≤ max ∧ Cut rest feed' ∧
      (StreamProg.receive max next).run feed = (next (.data chunk)).run feed' := by
  cases h with
  | nil => exact absurd rfl hne
  | @cons chunk bytes feed hchunk hcut =>
    by_cases hle : chunk.length ≤ max
    · refine ⟨chunk, bytes, feed, rfl, hchunk, hle, hcut, ?_⟩
      rw [run, List.take_of_length_le hle, leftover, if_pos hle]
    · have hdrop : chunk.drop max ≠ [] := by
        rw [ne_eq, List.drop_eq_nil_iff]; exact hle
      have htake : chunk.take max ≠ [] := by
        rw [ne_eq, List.take_eq_nil_iff]; exact fun h => h.elim (by omega) hchunk
      refine ⟨chunk.take max, chunk.drop max ++ bytes, .ok (chunk.drop max) :: feed, ?_, htake,
        List.length_take_le _ _, .cons hdrop hcut, ?_⟩
      · rw [← List.append_assoc, List.take_append_drop]
      · rw [run, leftover, if_neg hle]

/-! ### Running against an arbitrary peer -/

/-- One operation of a program, answered by a peer that is free in every answer; the list holds
the event recorded, if any. -/
inductive Step : StreamProg ε ν α → List ν → StreamProg ε ν α → Prop
  | received (max : ℕ) (next : Received → StreamProg ε ν α) (r : Received) :
      Step (.receive max next) [] (next r)
  | receiveErr (max : ℕ) (next : Received → StreamProg ε ν α) (e : ε) :
      Step (.receive max next) [] (.fail e)
  | sent (bytes : List UInt8) (next : StreamProg ε ν α) : Step (.send bytes next) [] next
  | sendErr (bytes : List UInt8) (next : StreamProg ε ν α) (e : ε) :
      Step (.send bytes next) [] (.fail e)
  | noted (event : ν) (next : StreamProg ε ν α) : Step (.note event next) [event] next

/-- Some operations of a program, with the events they recorded. -/
inductive Steps : StreamProg ε ν α → List ν → StreamProg ε ν α → Prop
  | refl (p : StreamProg ε ν α) : Steps p [] p
  | head {p q r : StreamProg ε ν α} {events more : List ν} : Step p events q → Steps q more r →
      Steps p (events ++ more) r

theorem Steps.one {p q : StreamProg ε ν α} {events : List ν} (h : Step p events q) :
    Steps p events q := by
  simpa using Steps.head h (.refl q)

/-- A feed is one of the peers a program may meet. -/
theorem steps_run (p : StreamProg ε ν α) (feed : Feed ε) :
    Steps p (p.run feed).notes (ofExcept (p.run feed).result) := by
  induction p generalizing feed with
  | pure a => exact .refl _
  | fail e => exact .refl _
  | receive max next ih =>
    rcases feed with _ | ⟨e | chunk, feed⟩
    · exact .head (.received max next .endOfStream) (ih _ _)
    · exact .one (.receiveErr max next e)
    · exact .head (.received max next (.data (chunk.take max))) (ih _ _)
  | send bytes next ih => exact .head (.sent bytes next) (ih _)
  | note event next ih => exact .head (.noted event next) (ih _)

/-- A program that waits for its stream. -/
def Suspended : StreamProg ε ν α → Prop
  | .receive _ _ => True
  | .send _ _ => True
  | _ => False

/-- A program that has returned, has failed or waits for its stream. These are the points where
its caller can abandon it. -/
def Resting : StreamProg ε ν α → Prop
  | .note _ _ => False
  | _ => True

/-- `Always Φ p log`: with `log` recorded before `p` starts, `Φ` holds of the events so far and
of what is left of the program, at every point of every run of `p`. -/
def Always (Φ : List ν → StreamProg ε ν α → Prop) : StreamProg ε ν α → List ν → Prop
  | .pure a, log => Φ log (.pure a)
  | .fail e, log => Φ log (.fail e)
  | .receive max next, log =>
    Φ log (.receive max next) ∧ (∀ e, Φ log (.fail e)) ∧ ∀ r, (next r).Always Φ log
  | .send bytes next, log =>
    Φ log (.send bytes next) ∧ (∀ e, Φ log (.fail e)) ∧ next.Always Φ log
  | .note event next, log => Φ log (.note event next) ∧ next.Always Φ (log ++ [event])

variable {Φ : List ν → StreamProg ε ν α → Prop} {p q : StreamProg ε ν α} {log events : List ν}

/-- The property holds where the program stands. -/
theorem Always.here (h : p.Always Φ log) : Φ log p := by
  cases p with
  | pure a => exact h
  | fail e => exact h
  | receive max next => exact h.1
  | send bytes next => exact h.1
  | note event next => exact h.1

/-- **Soundness.** A step of the program, whatever the peer answers, keeps the property. -/
theorem Always.step (h : p.Always Φ log) (hs : Step p events q) : q.Always Φ (log ++ events) := by
  cases hs with
  | received max next r => simpa using h.2.2 r
  | receiveErr max next e => simpa [Always] using h.2.1 e
  | sent bytes next => simpa using h.2.2
  | sendErr bytes next e => simpa [Always] using h.2.1 e
  | noted event next => exact h.2

theorem Always.steps (h : p.Always Φ log) (hs : Steps p events q) :
    q.Always Φ (log ++ events) := by
  induction hs generalizing log with
  | refl p => simpa using h
  | head hstep _ ih => rw [← List.append_assoc]; exact ih (h.step hstep)

/-- A program that records nothing: whatever it reads and sends, the log stays as it is. -/
def Silent : StreamProg ε ν α → Prop
  | .pure _ => True
  | .fail _ => True
  | .receive _ next => ∀ r, (next r).Silent
  | .send _ next => next.Silent
  | .note _ _ => False

theorem Silent.bind {p : StreamProg ε ν α} (hp : p.Silent) {f : α → StreamProg ε ν β}
    (hf : ∀ a, (f a).Silent) : (p >>= f).Silent := by
  induction p with
  | pure a => exact hf a
  | fail e => trivial
  | receive max next ih => exact fun r => ih r (hp r)
  | send bytes next ih => exact ih hp
  | note event next ih => exact hp.elim

@[simp] theorem silent_ofExcept (x : Except ε α) : (ofExcept x : StreamProg ε ν α).Silent := by
  cases x <;> trivial

/-- **Sequencing.** While a program that records nothing runs, the property need only hold of the
log as it stands, with the program waiting or failed; then of what follows it. -/
theorem Always.bind {Φ : List ν → StreamProg ε ν β → Prop} {p : StreamProg ε ν α}
    {f : α → StreamProg ε ν β} {log : List ν} (hp : p.Silent)
    (hwait : ∀ q : StreamProg ε ν β, q.Suspended → Φ log q) (hfail : ∀ e, Φ log (.fail e))
    (hf : ∀ a, (f a).Always Φ log) : (p >>= f).Always Φ log := by
  induction p with
  | pure a => exact hf a
  | fail e => exact hfail e
  | receive max next ih => exact ⟨hwait _ trivial, hfail, fun r => ih r (hp r)⟩
  | send bytes next ih => exact ⟨hwait _ trivial, hfail, ih hp⟩
  | note event next ih => exact hp.elim

/-- `Returns Φ p log`: with `log` recorded before `p` starts, `Φ` holds of the events and the result
of every run of `p` that returns. -/
def Returns (Φ : List ν → α → Prop) (p : StreamProg ε ν α) (log : List ν) : Prop :=
  p.Always (fun log q => ∀ a, q = .pure a → Φ log a) log

theorem returns_fail (Φ : List ν → α → Prop) (e : ε) (log : List ν) :
    (.fail e : StreamProg ε ν α).Returns Φ log :=
  fun _ h => absurd h (by simp)

/-- A program that records nothing returns with the log as it is. -/
theorem Silent.returns {p : StreamProg ε ν α} (hp : p.Silent) (log : List ν) :
    p.Returns (fun log' _ => log' = log) log := by
  have hfail : ∀ e, (.fail e : StreamProg ε ν α).Returns (fun log' _ => log' = log) log :=
    fun e => returns_fail _ e log
  induction p with
  | pure a => exact fun _ _ => rfl
  | fail e => exact hfail e
  | receive max next ih =>
    exact ⟨fun _ h => absurd h (by simp), hfail, fun r => ih r (hp r)⟩
  | send bytes next ih =>
    exact ⟨fun _ h => absurd h (by simp), hfail, ih hp⟩
  | note event next ih => exact hp.elim

/-- **Sequencing**, for the runs that return. -/
theorem Returns.bind {Ψ : List ν → α → Prop} {Φ : List ν → β → Prop} {p : StreamProg ε ν α}
    {f : α → StreamProg ε ν β} {log : List ν} (hp : p.Returns Ψ log)
    (hf : ∀ a log', Ψ log' a → (f a).Returns Φ log') : (p >>= f).Returns Φ log := by
  induction p generalizing log with
  | pure a => exact hf a log (hp a rfl)
  | fail e => exact returns_fail _ e log
  | receive max next ih =>
    exact ⟨fun _ h => absurd h (by simp), fun e => returns_fail _ e log,
      fun r => ih r (hp.2.2 r)⟩
  | send bytes next ih =>
    exact ⟨fun _ h => absurd h (by simp), fun e => returns_fail _ e log, ih hp.2.2⟩
  | note event next ih => exact ⟨fun _ h => absurd h (by simp), ih hp.2⟩

/-- **Sequencing** after a program that records nothing. -/
theorem Returns.of_silent {Φ : List ν → β → Prop} {p : StreamProg ε ν α}
    {f : α → StreamProg ε ν β} {log : List ν} (hp : p.Silent)
    (hf : ∀ a, (f a).Returns Φ log) : (p >>= f).Returns Φ log := by
  refine (hp.returns log).bind ?_
  rintro a _ rfl
  exact hf a

theorem Returns.note {Φ : List ν → α → Prop} {event : ν} {next : StreamProg ε ν α} {log : List ν}
    (h : next.Returns Φ (log ++ [event])) : (StreamProg.note event next).Returns Φ log :=
  ⟨fun _ h => absurd h (by simp), h⟩

/-- A program may start with something recorded, and what it records itself comes behind. -/
theorem Always.returns {Ψ : List ν → StreamProg ε ν α → Prop} {Φ : List ν → α → Prop}
    {log past : List ν} (h : p.Always Ψ past)
    (hΦ : ∀ more a, Ψ more (.pure a) → Φ (log ++ more) a) : p.Returns Φ (log ++ past) := by
  induction p generalizing past with
  | pure a => exact fun a' ha => by obtain rfl := StreamProg.pure.inj ha; exact hΦ past a h
  | fail e => exact returns_fail _ e _
  | receive max next ih =>
    exact ⟨fun _ h => absurd h (by simp), fun e => returns_fail _ e _, fun r => ih r (h.2.2 r)⟩
  | send bytes next ih =>
    exact ⟨fun _ h => absurd h (by simp), fun e => returns_fail _ e _, ih h.2.2⟩
  | note event next ih =>
    refine ⟨fun _ h => absurd h (by simp), ?_⟩
    rw [List.append_assoc]
    exact ih h.2

/-- What a run that returns has left behind. -/
theorem Returns.steps {Φ : List ν → α → Prop} {p : StreamProg ε ν α} {log events : List ν} {a : α}
    (h : p.Returns Φ log) (hs : Steps p events (.pure a)) : Φ (log ++ events) a :=
  (Always.steps h hs).here a rfl

/-! ### Leaving the events out -/

/-- The program without its events. -/
def silence {ν' : Type} : StreamProg ε ν α → StreamProg ε ν' α
  | .pure a => .pure a
  | .fail e => .fail e
  | .receive max next => .receive max fun r => (next r).silence
  | .send bytes next => .send bytes next.silence
  | .note _ next => next.silence

theorem silence_bind {ν' : Type} (p : StreamProg ε ν α) (f : α → StreamProg ε ν β) :
    ((p >>= f).silence : StreamProg ε ν' β) = p.silence >>= fun a => (f a).silence := by
  induction p with
  | pure a => rfl
  | fail e => rfl
  | receive max next ih => exact congrArg (StreamProg.receive max) (funext ih)
  | send bytes next ih => exact congrArg (StreamProg.send bytes) ih
  | note event next ih => exact ih

/-- Events have no effect on a run. -/
theorem run_silence {ν' : Type} (p : StreamProg ε ν α) (feed : Feed ε) :
    (p.silence : StreamProg ε ν' α).run feed
      = ⟨(p.run feed).result, (p.run feed).rest, (p.run feed).sent, []⟩ := by
  induction p generalizing feed with
  | pure a => rfl
  | fail e => rfl
  | receive max next ih =>
    rcases feed with _ | ⟨e | chunk, feed⟩
    · exact ih _ _
    · rfl
    · exact ih _ _
  | send bytes next ih => rw [silence, run, ih]; rfl
  | note event next ih => exact ih feed

/-! ### Running poll by poll -/

/-- What the stream answers to an operation that is polled. Where the answers run out, the
operation is pending. -/
inductive Answer (ε : Type) where
  /-- It is complete. -/
  | ready
  | received (r : Received)
  | failed (e : ε)

/-- What one poll of a program leaves behind. -/
structure Resumed (ε ν α : Type) where
  rest : StreamProg ε ν α
  answers : List (Answer ε)
  events : List ν
  /-- An operation on the stream was polled. -/
  touched : Bool

/-- Poll a program: go on until an operation is pending. -/
def resume : StreamProg ε ν α → List (Answer ε) → Resumed ε ν α
  | .pure a, answers => ⟨.pure a, answers, [], false⟩
  | .fail e, answers => ⟨.fail e, answers, [], false⟩
  | .note event next, answers =>
    let r := next.resume answers
    { r with events := event :: r.events }
  | .send bytes next, answers =>
    match answers with
    | .ready :: answers => { next.resume answers with touched := true }
    | .failed e :: answers => ⟨.fail e, answers, [], true⟩
    | _ => ⟨.send bytes next, [], [], true⟩
  | .receive max next, answers =>
    match answers with
    | .received r :: answers => { (next r).resume answers with touched := true }
    | .failed e :: answers => ⟨.fail e, answers, [], true⟩
    | _ => ⟨.receive max next, [], [], true⟩

/-- **A poll is a run**, -/
theorem resume_steps (p : StreamProg ε ν α) (answers : List (Answer ε)) :
    Steps p (p.resume answers).events (p.resume answers).rest := by
  induction p generalizing answers with
  | pure a => exact .refl _
  | fail e => exact .refl _
  | receive max next ih =>
    rcases answers with _ | ⟨_ | r | e, answers⟩
    · exact .refl _
    · exact .refl _
    · exact .head (.received max next r) (ih r answers)
    · exact .one (.receiveErr max next e)
  | send bytes next ih =>
    rcases answers with _ | ⟨_ | r | e, answers⟩
    · exact .refl _
    · exact .head (.sent bytes next) (ih answers)
    · exact .refl _
    · exact .one (.sendErr bytes next e)
  | note event next ih => exact .head (.noted event next) (ih answers)

/-- that ends where the program has returned, has failed or waits. -/
theorem resume_resting (p : StreamProg ε ν α) (answers : List (Answer ε)) :
    (p.resume answers).rest.Resting := by
  induction p generalizing answers with
  | pure a => trivial
  | fail e => trivial
  | receive max next ih =>
    rcases answers with _ | ⟨_ | r | e, answers⟩
    · trivial
    · trivial
    · exact ih r answers
    · trivial
  | send bytes next ih =>
    rcases answers with _ | ⟨_ | r | e, answers⟩
    · trivial
    · exact ih answers
    · trivial
    · trivial
  | note event next ih => exact ih answers

end StreamProg
