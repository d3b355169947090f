import Taunicorn.Transport.Reads

/-!
# First come, first served

Both gates serve in the order of the requests. Take two calls, and a state in which one of them has
asked for its gate and the other has not. From there on, whatever is dropped, fails, times out or is
closed: before the second call hands over its first byte, or receives it, the first one has ended,
and all that it ever hands over, or receives, stands before.

## Main results

* `Change.precedes`, `ReadChange.precedes` — a step keeps the precedence at each gate
* `served_in_order` — the bytes are in the order of the requests
-/

namespace Taunicorn

namespace Transport

open FifoMutex

variable {ι : Type} {core core' : Core ι} {id i j : ι} {call : Call} {label : Label ι}
  {peer : Stream'.Seq UInt8} {bytes bytes' : List UInt8}

/-- `i` precedes `j` at the write gate. -/
def Core.WritesBefore (core : Core ι) (i j : ι) : Prop :=
  core.shared.writeGate.Precedes core.place core.handed i j

/-- `i` precedes `j` at the read gate. -/
def Core.ReadsBefore (core : Core ι) (i j : ι) : Prop :=
  core.shared.readGate.Precedes core.readPlace core.received i j

/-- Who has left a gate has ended. -/
theorem Core.not_live_of_place (hcall : core.calls id = some call) (h : core.place id = .left) :
    ¬call.pc.Live := by
  rw [Core.place_eq hcall] at h
  unfold Op.place at h
  cases hpc : call.pc <;> rw [hpc] at h
  case done => exact not_false
  case dropped => exact not_false
  case panicked => exact not_false
  all_goals (exfalso; revert h; simp only; split_ifs <;> simp)

theorem Core.not_live_of_readPlace (hcall : core.calls id = some call)
    (h : core.readPlace id = .left) : ¬call.pc.Live := by
  rw [Core.readPlace_eq hcall] at h
  unfold Op.readPlace at h
  cases hpc : call.pc <;> rw [hpc] at h
  case done => exact not_false
  case dropped => exact not_false
  case panicked => exact not_false
  all_goals (exfalso; revert h; simp only; split_ifs <;> simp)

variable [DecidableEq ι]

/-- **A step keeps the precedence at the write gate.** -/
theorem Change.precedes (h : Change core label id call core') (hinv : WireInv core)
    (hbefore : core.WritesBefore i j) : core'.WritesBefore i j := by
  obtain ⟨bytes, -, hhanded, hio⟩ := h.wire
  refine hbefore.step hinv.logged (Core.place_eq h.calls_self ▸ h.move)
    (fun i hi => h.place_of_ne hi) (fun i hi => h.handed_of_ne hi)
    (Core.handed_eq h.calls_self ▸ hhanded) fun hne => ?_
  obtain ⟨c, hc, hbuffer, hpc⟩ := hio hne
  rw [Core.place_eq hc]
  exact Call.place_of_io hbuffer hpc

/-- **A step keeps the precedence at the read gate.** -/
theorem ReadChange.precedes (h : ReadChange core label id call core')
    (hinv : ReadInv peer core bytes) (hbefore : core.ReadsBefore i j) :
    core'.ReadsBefore i j := by
  have hself : core'.calls id = some call := by rw [h.calls, Function.update_self]
  have hother : ∀ i, i ≠ id → core'.calls i = core.calls i := by
    intro i hi
    rw [h.calls, Function.update_of_ne hi]
  refine hbefore.step hinv.logged (Core.readPlace_eq hself ▸ h.move) (fun i hi => ?_)
    (fun i hi => ?_) (Core.received_eq hself ▸ h.received) h.io
  · simp only [Core.readPlace, hother i hi]
  · simp only [Core.received, hother i hi]

/-- Precedence is for good. -/
theorem precedes_of_runs (hinv : ReadInv peer core bytes)
    (h : Runs (withHistory Core.step consumes) (Feeds peer) (core, bytes) (core', bytes')) :
    (core.WritesBefore i j → core'.WritesBefore i j) ∧
      (core.ReadsBefore i j → core'.ReadsBefore i j) := by
  have hkeeps := h.invariant (fun x => ReadInv peer x.1 x.2 ∧
    (core.WritesBefore i j → x.1.WritesBefore i j) ∧
    (core.ReadsBefore i j → x.1.ReadsBefore i j)) ⟨hinv, fun h => h, fun h => h⟩ ?_
  · exact hkeeps.2
  · rintro ⟨c, b⟩ label ⟨c', b'⟩ ⟨hinv, hwrites, hreads⟩ hfeeds hstep
    obtain ⟨hcore, rfl⟩ := withHistory_eq_some.mp hstep
    refine ⟨hinv.step hfeeds hcore, fun hbefore => ?_, fun hbefore => ?_⟩
    · obtain ⟨id, call, -, hchange⟩ := hinv.wire.change hcore
      exact hchange.precedes hinv.wire (hwrites hbefore)
    · obtain ⟨id, call, hchange⟩ := hinv.change hcore
      exact hchange.precedes hinv (hreads hbefore)

/-- **First come, first served**, at both gates and in every run. Let `i` have asked for its gate
where `j` has not. Once `j` has handed over a byte, `i` has ended, and its bytes stand on the wire
before those of `j`; and so for the bytes that are received. -/
theorem served_in_order
    (h : Runs (withHistory Core.step consumes) (Feeds peer) ({}, []) (core, bytes))
    (hruns : Runs (withHistory Core.step consumes) (Feeds peer) (core, bytes) (core', bytes')) :
    (core.place i ≠ .away → core.place j = .away → core'.handed j ≠ [] →
      (∀ call, core'.calls i = some call → ¬call.pc.Live) ∧
        ∃ a b c, core'.shared.wire = a ++ core'.handed i ++ b ++ core'.handed j ++ c) ∧
    (core.readPlace i ≠ .away → core.readPlace j = .away → core'.received j ≠ [] →
      (∀ call, core'.calls i = some call → ¬call.pc.Live) ∧
        ∃ a b c, bytes' = a ++ core'.received i ++ b ++ core'.received j ++ c) := by
  have hinv : ReadInv peer core bytes := readInv_init.of_runs h
  have hinv' : ReadInv peer core' bytes' := hinv.of_runs hruns
  obtain ⟨hwrites, hreads⟩ := precedes_of_runs (i := i) (j := j) hinv hruns
  constructor
  · intro hi hj hhanded
    have hbefore := hwrites (hinv.wire.logged.precedes hi hj)
    obtain ⟨hleft, hwire⟩ := hbefore.log hinv'.wire.logged hhanded
    exact ⟨fun call hcall => Core.not_live_of_place hcall hleft, hwire⟩
  · intro hi hj hreceived
    have hbefore := hreads (hinv.logged.precedes hi hj)
    obtain ⟨hleft, hbytes⟩ := hbefore.log hinv'.logged hreceived
    exact ⟨fun call hcall => Core.not_live_of_readPlace hcall hleft, hbytes⟩

/-! ### Three sends

The first holds the gate, the second waits for it, and then the third is made. -/

def waitingRun : List (Label ℕ) :=
  [Label.call 0 (.send [1]), .call 1 (.send [2])] ++ List.replicate 4 (Label.poll 0 .go) ++
    List.replicate 2 (Label.poll 0 .gate) ++ List.replicate 5 (Label.poll 0 .go) ++
    List.replicate 4 (Label.poll 1 .go) ++ [Label.poll 1 .gate, .call 2 (.send [3])]

/-- The first is dropped, and the others come to their turns. -/
def servedLastRun : List (Label ℕ) :=
  [Label.drop 0] ++ List.replicate 4 (Label.poll 2 .go) ++ [Label.poll 2 .gate, .poll 1 .gate] ++
    List.replicate 5 (Label.poll 1 .go) ++ [Label.poll 1 (.accept 1), .poll 1 .go, .poll 2 .gate] ++
    List.replicate 5 (Label.poll 2 .go) ++ [Label.poll 2 (.accept 1)]

def waitingCore : Core ℕ × List UInt8 :=
  (runLabels (withHistory Core.step consumes) (fun x l => decide (Feeds peerBytes x l)) ({}, [])
    waitingRun).getD ({}, [])

def servedLast : Core ℕ × List UInt8 :=
  (runLabels (withHistory Core.step consumes) (fun x l => decide (Feeds peerBytes x l)) waitingCore
    servedLastRun).getD ({}, [])

theorem runs_waitingCore : Runs (withHistory Core.step consumes) (Feeds peerBytes) ({}, [])
    (waitingCore.1, waitingCore.2) :=
  runs_of_runLabels (fun _ _ h => of_decide_eq_true h)
    (show runLabels _ (fun x l => decide (Feeds peerBytes x l)) ({}, []) waitingRun
      = some waitingCore from rfl)

theorem runs_servedLast : Runs (withHistory Core.step consumes) (Feeds peerBytes)
    (waitingCore.1, waitingCore.2) (servedLast.1, servedLast.2) :=
  runs_of_runLabels (fun _ _ h => of_decide_eq_true h)
    (show runLabels _ (fun x l => decide (Feeds peerBytes x l)) waitingCore servedLastRun
      = some servedLast from rfl)

theorem served_in_order_example : servedLast.1.shared.wire = [2, 3] ∧
    ∃ a b c, servedLast.1.shared.wire
      = a ++ servedLast.1.handed 1 ++ b ++ servedLast.1.handed 2 ++ c := by
  have hordered := (served_in_order (i := 1) (j := 2) runs_waitingCore runs_servedLast).1
  exact ⟨rfl, (hordered (by decide) rfl (by decide)).2⟩

end Transport

end Taunicorn
