import Taunicorn.Transport.Reads

/-!
# While a connection is paused

`pause` sets a flag that `ensure_read_available` and `ensure_write_available` look at, ahead of the
gate and behind it. It wakes nobody and interrupts nothing: a call that has passed the check behind
its gate goes on, a `send` until its whole buffer is written. So what a pause holds back is decided
by where each call stands when the flag is set.

A run while the connection is paused is a run each of whose steps is taken with the flag set. It
ends with `resume`, or with a close, which clears the flag.

## Main results

* `Polled.cleared` — nobody passes the check of a paused connection
* `HeldBack.step` — a call that has not passed it hands over and receives nothing
* `Polled.denied` — where a call can stand that is made meanwhile
* `while_paused` — all of it
-/

namespace Taunicorn

namespace Transport

open FifoMutex

variable {ι : Type} {sh : Shared ι} {id i : ι} {op : Op} {pc pc' : PC} {w w' : ℕ}
  {choice : Choice} {effect : Effect} {core core' : Core ι} {call call' : Call} {label : Label ι}

/-! ### The check behind the gate -/

/-- Where a call stands that has found the connection not paused, behind its gate. -/
def Cleared : PC → Prop
  | .ensure behindGate flag => behindGate = true ∧ flag ≠ .closed ∧ flag ≠ .paused
  | .streamClosed => True
  | .stream => True
  | .io => True
  | _ => False

/-- The operations that move bytes. -/
def Op.MovesBytes (op : Op) : Prop := op.buffer ≠ [] ∨ op.reads = true

/-- **Nobody passes the check of a paused connection.** -/
theorem Polled.cleared (h : Polled sh id op pc w effect pc' w') (hop : op.MovesBytes)
    (htyped : op.Typed pc) (hpaused : sh.state.paused = true) (hcleared : Cleared pc') :
    Cleared pc := by
  have hfinish : ∀ b outcome, ¬Cleared (.finish b outcome) := by
    intro b outcome
    cases b <;> exact not_false
  cases h with
  | entered =>
    rcases op.enter_cases with ⟨v, h, -⟩ | ⟨h, -⟩ | h | ⟨h, -⟩ | ⟨h, -⟩ <;> rw [h] at hcleared
    · exact hcleared.elim
    · exact hcleared.elim
    · exact absurd hcleared.1 Bool.false_ne_true
    · exact hcleared.elim
    · exact hcleared.elim
  | eof b _ => exact absurd hcleared (hfinish b _)
  | notEof b _ => exact absurd rfl hcleared.2.1
  | refused b flag _ => exact absurd hcleared (hfinish b _)
  | passed b flag hclear =>
    cases flag with
    | closed => exact absurd rfl hcleared.2.2
    | paused => exact absurd (hclear.symm.trans hpaused) Bool.false_ne_true
    | _ =>
      cases b with
      | true => exact ⟨rfl, by simp, by simp⟩
      | false =>
        rcases op.afterChecks_cases with ⟨h, -⟩ | h <;>
          simp [Op.afterEnsure, Cleared, h] at hcleared
  | idle b flag _ => exact absurd hcleared (hfinish b _)
  | busy b flag _ =>
    refine absurd hcleared ?_
    rcases op with _ | _ | _ | _ | _ | _ | _ | _ | _ | _ <;> cases flag <;> cases b <;>
      exact not_false
  | granted _ =>
    cases op with
    | receive max => exact hcleared.elim
    | shutdownWrite => exact hcleared.elim
    | close => exact hop.elim (absurd rfl) (absurd · Bool.false_ne_true)
    | _ => exact absurd rfl hcleared.2.1
  | stored hstored =>
    cases Op.stores_of_stored hstored with
    | shutdownWrite => exact hop.elim (absurd rfl) (absurd · Bool.false_ne_true)
    | _ => exact hcleared.elim
  | openSeen _ => trivial
  | stream _ => trivial
  | accepted n _ _ _ => trivial
  | closing stage first error =>
    rcases pollClosing_cases sh stage first error with ⟨stage', first', -, h⟩ | ⟨e, -, h⟩ |
      ⟨-, h | h⟩ <;> rw [h] at hcleared <;> exact hcleared.elim
  | _ => exact hcleared.elim

/-- A call that moves bytes and has not passed the check. -/
def HeldBack (moves : Op → Prop) (core : Core ι) (i : ι) : Prop :=
  ∀ call, core.calls i = some call → moves call.op → ¬Cleared call.pc

variable [DecidableEq ι] {moves : Op → Prop}

/-- It does not pass the check while the connection is paused. -/
theorem HeldBack.step (hheld : HeldBack moves core i) (hmoves : ∀ op, moves op → op.MovesBytes)
    (hinv : WireInv core) (hpaused : core.shared.state.paused = true)
    (h : core.step label = some core') : HeldBack moves core' i := by
  intro c hc hop
  obtain ⟨k, call', hstepped⟩ := Core.stepped h
  rw [hstepped.calls.1] at hc
  by_cases hi : i = k
  · subst hi
    rw [Function.update_self, Option.some.injEq] at hc
    subst hc
    cases hstepped with
    | called _ op hnone => exact not_false
    | dropped _ call effect hcall hdrop => exact not_false
    | polled _ choice call call' effect hcall hsame hpolled =>
      rw [hsame] at hop
      intro hcleared
      exact hheld call hcall hop
        (hpolled.cleared (hmoves _ hop) (hinv.typed _ call hcall) hpaused hcleared)
  · rw [Function.update_of_ne hi] at hc
    exact hheld c hc hop

/-- Meanwhile a writing call hands over nothing, -/
theorem HeldBack.handed (hheld : HeldBack (·.buffer ≠ []) core i) (hinv : WireInv core)
    (h : core.step label = some core') : core'.handed i = core.handed i := by
  obtain ⟨k, call', -, hchange⟩ := hinv.change h
  by_cases hi : i = k
  · subst hi
    obtain ⟨bytes, -, hhanded, hio⟩ := hchange.wire
    have hempty : bytes = [] := by
      by_contra hne
      obtain ⟨c, hc, hbuffer, hpc⟩ := hio hne
      exact hheld c hc hbuffer (hpc ▸ trivial)
    rw [Core.handed_eq hchange.calls_self, hhanded, hempty, List.append_nil]
  · exact hchange.handed_of_ne hi

omit [DecidableEq ι] in
/-- Only a call at the raw stream reads. -/
theorem Call.io_of_chunk [DecidableEq ι] (h : call.poll sh id choice = some (call', effect))
    (hchunk : choice.chunk ≠ []) : call.pc = .io := by
  obtain ⟨op, pc, w⟩ := call
  cases choice with
  | read chunk =>
    cases pc with
    | io => rfl
    | _ => simp [Call.poll, Op.giveUp] at h
  | _ => exact absurd rfl hchunk

variable {peer : Stream'.Seq UInt8} {bytes bytes' : List UInt8}

/-- and a `receive` receives nothing. -/
theorem HeldBack.received (hheld : HeldBack (·.reads = true) core i)
    (hinv : ReadInv peer core bytes) (h : core.step label = some core') :
    core'.received i = core.received i := by
  by_cases hchunk : label.chunk = []
  · obtain ⟨k, call', hchange⟩ := hinv.change h
    by_cases hi : i = k
    · subst hi
      have hself : core'.calls i = some call' := by rw [hchange.calls, Function.update_self]
      rw [Core.received_eq hself, hchange.received, hchunk, List.append_nil]
    · simp only [Core.received, hchange.calls, Function.update_of_ne hi]
  · cases label with
    | poll id choice =>
      simp only [Core.step] at h
      split at h
      · exact absurd h.symm (Option.some_ne_none _)
      · next call hcall =>
        obtain ⟨⟨call', effect⟩, hpoll, rfl⟩ := Option.map_eq_some_iff.mp h
        have hi : i ≠ id := by
          rintro rfl
          exact hheld call hcall (Call.reads_of_chunk hpoll hchunk)
            (Call.io_of_chunk hpoll hchunk ▸ trivial)
        simp only [Core.received, Function.update_of_ne hi]
    | _ => exact absurd rfl hchunk

/-! ### Calls that are made meanwhile -/

/-- The operations that look whether the connection is paused: those that read, write or flush,
unless there is nothing to read or write. -/
def Op.Pausable (op : Op) : Prop := op.enter = .eof false ∨ op.enter = .ensure false .closed

/-- What such an operation returns on a paused connection. -/
def Op.Denies (op : Op) : Outcome → Prop
  | .error e => e = .msg closedText ∨ e = .msg Flag.paused.text
  | .ok v => v = .endOfStream ∧ op.reads = true

/-- Where a call stands that is made while the connection is paused. -/
def Denied (op : Op) : PC → Prop
  | .start => True
  | .eof behindGate => behindGate = false
  | .ensure behindGate flag => behindGate = false ∧ (flag = .closed ∨ flag = .paused)
  | .done outcome => op.Denies outcome
  | .dropped => True
  | _ => False

omit [DecidableEq ι] in
/-- **Where a call can stand that is made meanwhile.** -/
theorem Polled.denied (h : Polled sh id op pc w effect pc' w') (hop : op.Pausable)
    (htyped : op.Typed pc) (hpaused : sh.state.paused = true) (hdenied : Denied op pc) :
    Denied op pc' := by
  cases h with
  | entered =>
    rcases hop with h | h <;> rw [h]
    · exact rfl
    · exact ⟨rfl, Or.inl rfl⟩
  | eof b _ =>
    obtain rfl : b = false := hdenied
    exact ⟨rfl, htyped⟩
  | notEof b _ => exact ⟨hdenied, Or.inl rfl⟩
  | refused b flag _ =>
    obtain ⟨rfl, rfl | rfl⟩ := hdenied
    · exact Or.inl rfl
    · exact Or.inr rfl
  | passed b flag hclear =>
    obtain ⟨rfl, rfl | rfl⟩ := hdenied
    · exact ⟨rfl, Or.inr rfl⟩
    · exact absurd (hclear.symm.trans hpaused) Bool.false_ne_true
  | _ => exact hdenied.elim

/-- The steps that are taken while the connection is paused. -/
def WhilePaused (peer : Stream'.Seq UInt8) (x : Core ι × List UInt8) (label : Label ι) : Prop :=
  Feeds peer x label ∧ x.1.shared.state.paused = true

/-- A call that holds back keeps everything it has. -/
theorem HeldBack.of_runs (hinv : ReadInv peer core bytes)
    (h : Runs (withHistory Core.step consumes) (WhilePaused peer) (core, bytes) (core', bytes')) :
    (HeldBack (·.buffer ≠ []) core i → core'.handed i = core.handed i) ∧
      (HeldBack (·.reads = true) core i → core'.received i = core.received i) := by
  have hkeeps := h.invariant (fun x => ReadInv peer x.1 x.2 ∧
    (HeldBack (·.buffer ≠ []) core i →
      HeldBack (·.buffer ≠ []) x.1 i ∧ x.1.handed i = core.handed i) ∧
    (HeldBack (·.reads = true) core i →
      HeldBack (·.reads = true) x.1 i ∧ x.1.received i = core.received i))
    ⟨hinv, fun hheld => ⟨hheld, rfl⟩, fun hheld => ⟨hheld, rfl⟩⟩ ?_
  · exact ⟨fun hheld => (hkeeps.2.1 hheld).2, fun hheld => (hkeeps.2.2 hheld).2⟩
  · rintro ⟨c, b⟩ label ⟨c', b'⟩ ⟨hinv, hwrites, hreads⟩ ⟨hfeeds, hpaused⟩ hstep
    obtain ⟨hcore, rfl⟩ := withHistory_eq_some.mp hstep
    refine ⟨hinv.step hfeeds hcore, fun hheld => ?_, fun hheld => ?_⟩
    · obtain ⟨hheld, hhanded⟩ := hwrites hheld
      exact ⟨hheld.step (fun _ => Or.inl) hinv.wire hpaused hcore,
        (hheld.handed hinv.wire hcore).trans hhanded⟩
    · obtain ⟨hheld, hreceived⟩ := hreads hheld
      exact ⟨hheld.step (fun _ => Or.inr) hinv.wire hpaused hcore,
        (hheld.received hinv hcore).trans hreceived⟩

/-- Who hands over bytes holds the write gate, and has passed its check. -/
theorem holder_of_handed_ne (hinv : ReadInv peer core bytes)
    (h : Runs (withHistory Core.step consumes) (WhilePaused peer) (core, bytes) (core', bytes'))
    (hne : core'.handed i ≠ core.handed i) :
    core.shared.writeGate.holder = some i ∧
      ∃ call, core.calls i = some call ∧ Cleared call.pc := by
  obtain ⟨call, hcall, hbuffer, hcleared⟩ : ∃ call, core.calls i = some call ∧
      call.op.buffer ≠ [] ∧ Cleared call.pc := by
    by_contra hnot
    exact hne ((HeldBack.of_runs hinv h).1 fun call hcall hbuffer hcleared =>
      hnot ⟨call, hcall, hbuffer, hcleared⟩)
  refine ⟨?_, call, hcall, hcleared⟩
  have hat := hinv.wire.at_place i
  rw [Core.place_eq hcall] at hat
  have hplace : call.op.place call.pc = .holding := by
    have hreads : call.op.reads = false :=
      Bool.eq_false_iff.mpr fun hreads => hbuffer (call.op.buffer_eq_nil_of_reads hreads)
    cases hpc : call.pc <;> rw [hpc] at hcleared <;>
      first | exact hcleared.elim | simp_all [Op.place, Cleared]
  rw [hplace] at hat
  exact hat

/-- Who receives bytes holds the read gate, and has passed its check. -/
theorem holder_of_received_ne (hinv : ReadInv peer core bytes)
    (h : Runs (withHistory Core.step consumes) (WhilePaused peer) (core, bytes) (core', bytes'))
    (hne : core'.received i ≠ core.received i) :
    core.shared.readGate.holder = some i ∧
      ∃ call, core.calls i = some call ∧ Cleared call.pc := by
  obtain ⟨call, hcall, hreads, hcleared⟩ : ∃ call, core.calls i = some call ∧
      call.op.reads = true ∧ Cleared call.pc := by
    by_contra hnot
    exact hne ((HeldBack.of_runs hinv h).2 fun call hcall hreads hcleared =>
      hnot ⟨call, hcall, hreads, hcleared⟩)
  refine ⟨?_, call, hcall, hcleared⟩
  have hat := hinv.logged.at_place i
  rw [Core.readPlace_eq hcall] at hat
  have hplace : call.op.readPlace call.pc = .holding := by
    cases hpc : call.pc <;> rw [hpc] at hcleared <;>
      first | exact hcleared.elim | simp_all [Op.readPlace, Cleared]
  rw [hplace] at hat
  exact hat

/-- **The wire meanwhile**: whatever is added is what the holder of the write gate has added. -/
theorem wire_of_runs (hinv : ReadInv peer core bytes)
    (h : Runs (withHistory Core.step consumes) (WhilePaused peer) (core, bytes) (core', bytes')) :
    ∃ added, core'.shared.wire = core.shared.wire ++ added ∧
      (∀ i, core.shared.writeGate.holder = some i → core'.handed i = core.handed i ++ added) ∧
      (added ≠ [] → ∃ i call, core.shared.writeGate.holder = some i ∧
        core.calls i = some call ∧ Cleared call.pc) := by
  have hadds := h.invariant (fun x => ReadInv peer x.1 x.2 ∧
    Runs (withHistory Core.step consumes) (WhilePaused peer) (core, bytes) x ∧
    ∃ added, x.1.shared.wire = core.shared.wire ++ added ∧
      (∀ i, core.shared.writeGate.holder = some i → x.1.handed i = core.handed i ++ added) ∧
      (added ≠ [] → ∃ i call, core.shared.writeGate.holder = some i ∧
        core.calls i = some call ∧ Cleared call.pc))
    ⟨hinv, .refl, [], by simp, by simp, fun hne => absurd rfl hne⟩ ?_
  · exact hadds.2.2
  · rintro ⟨c, b⟩ label ⟨c', b'⟩ ⟨hinv', hruns, added, hwire, hholder, hcleared⟩ hlabel hstep
    have hruns' := hruns.tail hlabel hstep
    obtain ⟨hcore, rfl⟩ := withHistory_eq_some.mp hstep
    refine ⟨hinv'.step hlabel.1 hcore, hruns', ?_⟩
    obtain ⟨id, call, -, hchange⟩ := hinv'.wire.change hcore
    obtain ⟨more, hmore, hhanded, -⟩ := hchange.wire
    rw [← Core.handed_eq hchange.calls_self] at hhanded
    have hmoved : more ≠ [] → core.shared.writeGate.holder = some id ∧
        ∃ call, core.calls id = some call ∧ Cleared call.pc := by
      intro hsome
      by_cases hsame : c.handed id = core.handed id
      · refine holder_of_handed_ne hinv hruns' fun hsame' => hsome ?_
        rw [hhanded, hsame] at hsame'
        exact List.append_right_eq_self.mp hsame'
      · exact holder_of_handed_ne hinv hruns hsame
    refine ⟨added ++ more, by rw [hmore, hwire, List.append_assoc], fun i hi => ?_, fun hne => ?_⟩
    · rw [← List.append_assoc, ← hholder i hi]
      by_cases hid : i = id
      · exact hid ▸ hhanded
      · have hnone : more = [] := by
          by_contra hsome
          exact hid (Option.some.inj (hi.symm.trans (hmoved hsome).1))
        rw [hnone, List.append_nil]
        exact hchange.handed_of_ne hid
    · by_cases hadded : added = []
      · obtain ⟨hid, c, hc⟩ := hmoved (by simpa [hadded] using hne)
        exact ⟨id, c, hid, hc⟩
      · exact hcleared hadded

/-- Calls that are made meanwhile are denied. -/
theorem denied_of_runs (hinv : ReadInv peer core bytes) (hnone : core.calls i = none)
    (h : Runs (withHistory Core.step consumes) (WhilePaused peer) (core, bytes) (core', bytes')) :
    ∀ call, core'.calls i = some call → call.op.Pausable → Denied call.op call.pc := by
  have hkeeps := h.invariant (fun x => ReadInv peer x.1 x.2 ∧
    ∀ call, x.1.calls i = some call → call.op.Pausable → Denied call.op call.pc)
    ⟨hinv, fun call hcall => absurd (hcall.symm.trans hnone) (Option.some_ne_none _)⟩ ?_
  · exact hkeeps.2
  · rintro ⟨c, b⟩ label ⟨c', b'⟩ ⟨hinv, hdenied⟩ ⟨hfeeds, hpaused⟩ hstep
    obtain ⟨hcore, rfl⟩ := withHistory_eq_some.mp hstep
    refine ⟨hinv.step hfeeds hcore, fun call hcall hop => ?_⟩
    dsimp only at hcore hcall hdenied hpaused
    obtain ⟨k, call', hstepped⟩ := Core.stepped hcore
    rw [hstepped.calls.1] at hcall
    by_cases hi : i = k
    · subst hi
      rw [Function.update_self, Option.some.injEq] at hcall
      subst hcall
      cases hstepped with
      | called _ op hnone => trivial
      | dropped _ call effect hcall hdrop => trivial
      | polled _ choice call call' effect hcall hsame hpolled =>
        rw [hsame] at hop ⊢
        exact hpolled.denied hop (hinv.wire.typed _ call hcall) hpaused (hdenied call hcall hop)
    · rw [Function.update_of_ne hi] at hcall
      exact hdenied call hcall hop

/-- **While a connection is paused**, in every interleaving and in any company:

* only the call that holds the write gate, and has passed its check when the flag is set, hands over
  bytes, and what is added to the wire is what it hands over;
* only the call that holds the read gate, and has passed its check, receives bytes;
* a call that is made meanwhile hands over and receives nothing, and returns that the connection is
  paused or closed, or the end of the stream if it reads and that has been seen. -/
theorem while_paused
    (h : Runs (withHistory Core.step consumes) (Feeds peer) ({}, []) (core, bytes))
    (hpaused : Runs (withHistory Core.step consumes) (WhilePaused peer) (core, bytes)
      (core', bytes')) :
    (∀ i, core'.handed i ≠ core.handed i → core.shared.writeGate.holder = some i ∧
      ∃ call, core.calls i = some call ∧ Cleared call.pc) ∧
    (∃ added, core'.shared.wire = core.shared.wire ++ added ∧
      (∀ i, core.shared.writeGate.holder = some i → core'.handed i = core.handed i ++ added) ∧
      (added ≠ [] → ∃ i call, core.shared.writeGate.holder = some i ∧
        core.calls i = some call ∧ Cleared call.pc)) ∧
    (∀ i, core'.received i ≠ core.received i → core.shared.readGate.holder = some i ∧
      ∃ call, core.calls i = some call ∧ Cleared call.pc) ∧
    ∀ i call, core.calls i = none → core'.calls i = some call → call.op.Pausable →
      call.handed = [] ∧ call.received = [] ∧
        ∀ outcome, call.outcome = some outcome → call.op.Denies outcome := by
  have hinv : ReadInv peer core bytes := readInv_init.of_runs h
  refine ⟨fun i => holder_of_handed_ne hinv hpaused, wire_of_runs hinv hpaused,
    fun i => holder_of_received_ne hinv hpaused, fun i call hnone hcall hop => ?_⟩
  have hdenied := denied_of_runs hinv hnone hpaused call hcall hop
  have hheld : ∀ moves, HeldBack moves core i :=
    fun _ c hc => absurd (hc.symm.trans hnone) (Option.some_ne_none _)
  refine ⟨?_, ?_, fun outcome houtcome => ?_⟩
  · have hhanded := (HeldBack.of_runs hinv hpaused).1 (hheld _)
    rw [Core.handed_eq hcall] at hhanded
    simpa [Core.handed, hnone] using hhanded
  · have hreceived := (HeldBack.of_runs hinv hpaused).2 (hheld _)
    rw [Core.received_eq hcall] at hreceived
    simpa [Core.received, hnone] using hreceived
  · unfold Call.outcome at houtcome
    cases hpc : call.pc <;> rw [hpc] at houtcome hdenied
    case done => exact Option.some.inj houtcome ▸ hdenied
    all_goals first | exact hdenied.elim | exact absurd houtcome.symm (Option.some_ne_none _)

/-! ### A pause in the middle of a send -/

/-- A send has written one byte of three when the connection is paused. -/
def pausingRun : List (Label ℕ) :=
  .call 0 (.send [1, 2, 3]) :: List.replicate 4 (.poll 0 .go) ++ List.replicate 2 (.poll 0 .gate) ++
    List.replicate 5 (.poll 0 .go) ++ [Label.poll 0 (.accept 1), .call 1 .pause] ++
    List.replicate 3 (.poll 1 .go)

/-- It goes on, and another send is made. -/
def meanwhileRun : List (Label ℕ) :=
  [Label.call 2 (.send [9])] ++ List.replicate 3 (Label.poll 2 .go) ++
    [Label.poll 0 (.accept 2), .poll 0 .go]

def pausingCore : Core ℕ × List UInt8 :=
  (runLabels (withHistory Core.step consumes) (fun x l => decide (Feeds peerBytes x l)) ({}, [])
    pausingRun).getD ({}, [])

def meanwhileCore : Core ℕ × List UInt8 :=
  (runLabels (withHistory Core.step consumes)
    (fun x l => decide (Feeds peerBytes x l) && x.1.shared.state.paused) pausingCore
    meanwhileRun).getD ({}, [])

theorem runs_pausingCore : Runs (withHistory Core.step consumes) (Feeds peerBytes) ({}, [])
    (pausingCore.1, pausingCore.2) :=
  runs_of_runLabels (fun _ _ h => of_decide_eq_true h)
    (show runLabels _ (fun x l => decide (Feeds peerBytes x l)) ({}, []) pausingRun
      = some pausingCore from rfl)

theorem runs_meanwhileCore : Runs (withHistory Core.step consumes) (WhilePaused peerBytes)
    (pausingCore.1, pausingCore.2) (meanwhileCore.1, meanwhileCore.2) := by
  refine runs_of_runLabels (fun x label hcheck => ?_)
    (show runLabels _ (fun x l => decide (Feeds peerBytes x l) && x.1.shared.state.paused)
      pausingCore meanwhileRun = some meanwhileCore from rfl)
  obtain ⟨hfeeds, hpaused⟩ := Bool.and_eq_true_iff.mp hcheck
  exact ⟨of_decide_eq_true hfeeds, hpaused⟩

theorem while_paused_example :
    pausingCore.1.shared.wire = [1] ∧ meanwhileCore.1.shared.wire = [1, 2, 3] ∧
      pausingCore.1.shared.writeGate.holder = some 0 ∧
      (∃ call, pausingCore.1.calls 0 = some call ∧ Cleared call.pc) ∧
      (Op.send [9]).Denies (.error (.msg "socket connection is paused")) := by
  obtain ⟨hwrites, -, -, hdenied⟩ := while_paused runs_pausingCore runs_meanwhileCore
  obtain ⟨hholder, hcleared⟩ := hwrites 0 (by decide)
  have hcall : meanwhileCore.1.calls 2
      = some ⟨.send [9], .done (.error (.msg "socket connection is paused")), 0⟩ := rfl
  exact ⟨rfl, rfl, hholder, hcleared, (hdenied 2 _ rfl hcall (Or.inr rfl)).2.2 _ rfl⟩

end Transport

end Taunicorn
