import Taunicorn.Transport.Shutdown

/-!
# After `close` has returned

Only the call whose swap made the transition cancels the tokens, waits for the write gate and
invokes the shutdown of the raw stream. A `close` that comes later, or behind a failure, finds the
connection closed and returns at once. At that moment a send can be at the raw stream still, and
the branches of its `select!` have no order: it may go on writing.

## Main results

* `DoneInv.step` — when the call that has won the swap returns `Ok`, the write direction is shut
* `nothing_after_close` — what is written behind a `close` that has returned `Ok`
* `write_after_close` — a send goes on behind the second of two closers
-/

namespace Taunicorn

namespace Transport

open FifoMutex

variable {ι : Type} {sh sh' : Shared ι} {id i : ι} {op : Op} {pc pc' : PC} {w w' : ℕ}
  {effect : Effect} {core core' : Core ι} {call call' : Call} {label : Label ι}
  {answers : List (ι × Bool)}

/-! ### The call that has won the swap -/

/-- Where the call that has won the swap can stand. -/
def Won (op : Op) : PC → Prop
  | .closing stage first _ => stage ≠ .closed ∧ first = true
  | .gate => op = .close
  | .gateWait => op = .close
  | .io => op = .close
  | .unwind _ => True
  | .done _ => True
  | .dropped => True
  | _ => False

theorem Polled.won (h : Polled sh id op pc w effect pc' w') (hwon : Won op pc)
    (htyped : op.Typed pc) : Won op pc' := by
  cases h with
  | requested => exact hwon
  | gaveUp e _ => trivial
  | granted _ =>
    obtain rfl : op = .close := hwon
    rfl
  | withdrew e _ => trivial
  | interrupted e _ => trivial
  | accepted n _ _ _ => exact hwon
  | completed n _ _ _ => trivial
  | acceptedOnce data n _ _ _ => trivial
  | failed e hop => exact absurd hwon hop
  | readEof hreads =>
    obtain rfl : op = .close := hwon
    exact absurd hreads nofun
  | answered outcome _ _ => trivial
  | closing stage first error =>
    obtain ⟨hstage, rfl⟩ := hwon
    cases error with
    | some e => cases stage <;> first | exact absurd rfl hstage | exact ⟨nofun, rfl⟩ | trivial
    | none =>
      obtain rfl := htyped rfl
      cases hstream : sh.stream <;> cases stage <;>
        simp_all [pollClosing, Won]
  | released outcome => trivial
  | _ => exact hwon.elim

/-- When the winner's outcome becomes `Ok`, it has been at the raw stream. -/
theorem Polled.won_ok {v : Value} (h : Polled sh id .close pc w effect pc' w')
    (hwon : Won .close pc) (hprogress : Progress sh pc)
    (hpc' : pc' = .unwind (.ok v) ∨ pc' = .done (.ok v)) : pc = .io ∨ pc = .unwind (.ok v) := by
  cases h with
  | completed n hwhole _ _ => cases hwhole
  | acceptedOnce data n hop _ _ => cases hop
  | answered outcome _ _ => exact Or.inl rfl
  | closing stage first error =>
    obtain ⟨hstage, rfl⟩ := hwon
    exfalso
    cases error with
    | some e => cases stage <;> simp [pollClosing] at hpc'
    | none =>
      cases stage with
      | closed => exact hstage rfl
      | stream => simp [pollClosing, show sh.stream = true from hprogress.2.2] at hpc'
      | _ => simp [pollClosing] at hpc'
  | released outcome =>
    rcases hpc' with h | h
    · cases h
    · exact Or.inr (by rw [PC.done.inj h])
  | granted _ => exact absurd hpc' (by simp [Op.enterGate])
  | _ => first | exact hwon.elim | exact absurd hpc' (by simp)

/-- Whoever has won the swap is the winner. -/
theorem CloseInv.winner (hinv : CloseInv core answers) (hmem : (id, true) ∈ answers) :
    core.shared.state.closed = true ∧
      ∃ call, core.calls id = some call ∧ Progress core.shared call.pc := by
  have hmem' : (id, true) ∈ answers.filter Prod.snd := List.mem_filter.mpr ⟨hmem, rfl⟩
  have hclosed : core.shared.state.closed = true := by
    by_contra hopen
    rw [(hinv.opened (by simpa using hopen)).1] at hmem'
    exact absurd hmem' List.not_mem_nil
  obtain ⟨i, c, hanswers, hc, hprogress⟩ := hinv.closed hclosed
  rw [hanswers, List.mem_singleton] at hmem'
  obtain rfl : id = i := congrArg Prod.fst hmem'
  exact ⟨hclosed, c, hc, hprogress⟩

/-- A `close` has its outcome only behind the swap. -/
theorem Polled.closed_of_close (h : Polled sh id .close pc w effect pc' w')
    (hbehind : Behind sh answers id .close pc)
    (hpc' : ∃ outcome, pc' = .unwind outcome ∨ pc' = .done outcome) :
    (∃ outcome, pc = .unwind outcome) ∨ (id, true) ∈ answers ∨
      ∃ stage first error, stage ≠ .closed ∧ pc = .closing stage first error := by
  obtain ⟨outcome, hpc'⟩ := hpc'
  cases h with
  | entered => simp [Op.enter] at hpc'
  | requested => exact Or.inr (Or.inl (hbehind rfl))
  | gaveUp e _ => exact Or.inr (Or.inl (hbehind rfl))
  | granted _ => exact Or.inr (Or.inl (hbehind rfl))
  | withdrew e _ => exact Or.inr (Or.inl (hbehind rfl))
  | stored hstored => cases hstored
  | readCancelled => exact absurd rfl hbehind.1
  | interrupted e _ => exact Or.inr (Or.inl (hbehind rfl))
  | accepted n hwhole _ _ => cases hwhole
  | completed n hwhole _ _ => cases hwhole
  | acceptedOnce data n hop _ _ => cases hop
  | failed e hop => exact absurd rfl hop
  | readEof hreads => cases hreads
  | answered outcome _ _ => exact Or.inr (Or.inl (hbehind rfl))
  | closing stage first error =>
    refine Or.inr (Or.inr ⟨stage, first, error, ?_, rfl⟩)
    rintro rfl
    simp [pollClosing] at hpc'
  | released outcome => exact Or.inl ⟨outcome, rfl⟩
  | _ => exact absurd rfl hbehind

/-- **The invariant of returning.** When the winner's outcome is `Ok`, the write direction is
shut. -/
structure DoneInv (core : Core ι) (answers : List (ι × Bool)) : Prop where
  shut : ShutInv core answers
  won : ∀ id call, core.calls id = some call → (id, true) ∈ answers → Won call.op call.pc
  returned : ∀ id call, core.calls id = some call → call.op = .close → (id, true) ∈ answers →
    ∀ v, call.pc = .unwind (.ok v) ∨ call.pc = .done (.ok v) → Shut core
  closed : ∀ id call, core.calls id = some call → call.op = .close →
    (∃ outcome, call.pc = .unwind outcome ∨ call.pc = .done outcome) →
    core.shared.state.closed = true

variable [DecidableEq ι]

omit [DecidableEq ι] in
/-- The answer of a swap. -/
theorem mem_swaps (h : (i, true) ∈ swaps core label) : ∃ choice call first error,
    label = .poll i choice ∧ core.calls i = some call ∧ call.pc = .closing .closed first error ∧
      core.shared.state.closed = false := by
  cases label with
  | poll id choice =>
    simp only [swaps] at h
    split at h
    · next first error hpc =>
      obtain ⟨call, hcall, hcallpc⟩ := Option.map_eq_some_iff.mp hpc
      obtain ⟨rfl, hopen⟩ := Prod.mk.inj (List.mem_singleton.mp h)
      exact ⟨choice, call, first, error, rfl, hcall, hcallpc, by simpa using hopen.symm⟩
    · exact absurd h List.not_mem_nil
  | _ => exact absurd h List.not_mem_nil

omit [DecidableEq ι] in
theorem Polled.swapped [DecidableEq ι] {first : Bool} {error : Option Error}
    (h : Polled sh id op (.closing .closed first error) w effect pc' w') :
    pc' = .closing .paused (!sh.state.closed) error := by
  cases h
  rfl

theorem DoneInv.step (hinv : DoneInv core answers) (h : core.step label = some core') :
    DoneInv core' (answers ++ swaps core label) := by
  have hwire := hinv.shut.close.wire
  obtain ⟨k, call', hstepped, hchange⟩ := hwire.change h
  have hshut : Shut core → Shut core' := fun hshut => (hshut.step hwire h).1
  have hself : (k, true) ∈ answers ++ swaps core label → Won call'.op call'.pc ∧
      (call'.op = .close → ∀ v, call'.pc = .unwind (.ok v) ∨ call'.pc = .done (.ok v) →
        Shut core') := by
    intro hmem
    cases hstepped with
    | called id op hnone =>
      rcases List.mem_append.mp hmem with hmem | hmem
      · obtain ⟨-, c, hc, -⟩ := hinv.shut.close.winner hmem
        exact absurd (hnone.symm.trans hc) nofun
      · exact absurd hmem List.not_mem_nil
    | dropped id call effect hcall hdrop =>
      exact ⟨trivial, fun _ v hpc => absurd hpc (by simp)⟩
    | polled id choice call call' effect hcall hop hpolled =>
      rcases List.mem_append.mp hmem with hmem | hmem
      · have hwon := hinv.won _ call hcall hmem
        refine ⟨hop ▸ hpolled.won hwon (hwire.typed _ call hcall), fun hclose v hpc => ?_⟩
        rw [hop] at hclose
        obtain ⟨-, c, hc, hprogress⟩ := hinv.shut.close.winner hmem
        obtain rfl := Option.some.inj (hcall.symm.trans hc)
        rw [hclose] at hpolled hwon
        rcases hpolled.won_ok hwon hprogress hpc with hio | hunwind
        · exact hshut (hinv.shut.shut hcall (Or.inr hclose) hio)
        · exact hshut (hinv.returned _ call hcall hclose hmem v (Or.inl hunwind))
      · obtain ⟨_, c, first, error, -, hc, hpc, hopen⟩ := mem_swaps hmem
        obtain rfl := Option.some.inj (hcall.symm.trans hc)
        rw [hpc] at hpolled
        have hpc' := hpolled.swapped
        rw [hopen] at hpc'
        rw [hpc']
        exact ⟨⟨nofun, rfl⟩, fun _ v hpc => absurd hpc (by simp)⟩
  have hother : ∀ i, i ≠ k → (i, true) ∈ answers ++ swaps core label → (i, true) ∈ answers := by
    intro i hi hmem
    refine (List.mem_append.mp hmem).resolve_right fun hmem => hi ?_
    obtain ⟨choice, c, first, error, rfl, -⟩ := mem_swaps hmem
    cases hstepped
    rfl
  refine ⟨hinv.shut.step h, fun i c hc hmem => ?_, fun i c hc hop hmem v hpc => ?_,
    fun i c hc hop hpc => ?_⟩
  · by_cases hi : i = k
    · subst hi
      obtain rfl := Option.some.inj (hchange.calls_self.symm.trans hc)
      exact (hself hmem).1
    · exact hinv.won i c (hchange.calls_of_ne hi ▸ hc) (hother i hi hmem)
  · by_cases hi : i = k
    · subst hi
      obtain rfl := Option.some.inj (hchange.calls_self.symm.trans hc)
      exact (hself hmem).2 hop v hpc
    · exact hshut (hinv.returned i c (hchange.calls_of_ne hi ▸ hc) hop (hother i hi hmem) v hpc)
  · have hclosed := load_of_step .closed rfl h
    by_cases hi : i = k
    · subst hi
      obtain rfl := Option.some.inj (hchange.calls_self.symm.trans hc)
      cases hstepped with
      | called id op hnone => simp at hpc
      | dropped id call effect hcall hdrop => simp at hpc
      | polled id choice call call' effect hcall hop' hpolled =>
        rw [hop'] at hop
        have hbehind := hinv.shut.close.behind _ call hcall
        rw [hop] at hpolled hbehind
        rcases hpolled.closed_of_close hbehind hpc with ⟨outcome, hunwind⟩ | hmem |
          ⟨stage, first, error, hstage, hclosing⟩
        · exact hclosed (hinv.closed _ call hcall hop ⟨outcome, Or.inl hunwind⟩)
        · exact hclosed (hinv.shut.close.winner hmem).1
        · have hsound := hwire.sound _ call hcall
          rw [hclosing] at hsound
          exact hclosed (hsound.2 hstage)
    · exact hclosed (hinv.closed i c (hchange.calls_of_ne hi ▸ hc) hop hpc)

theorem doneInv_of_runs {allowed : Core ι × List (ι × Bool) → Label ι → Prop}
    {x : Core ι × List (ι × Bool)} (h : Runs (withHistory Core.step swaps) allowed ({}, []) x) :
    DoneInv x.1 x.2 := by
  refine h.invariant (fun x => DoneInv x.1 x.2) ⟨⟨closeInv_init, ?_⟩, ?_, ?_, ?_⟩ ?_
  · exact fun _ _ h => absurd h nofun
  · exact fun _ _ h => absurd h nofun
  · exact fun _ _ h => absurd h nofun
  · exact fun _ _ h => absurd h nofun
  · rintro x label x' hinv - hstep
    obtain ⟨hcore, hhistory⟩ := withHistory_eq_some.mp hstep
    rw [hhistory]
    exact hinv.step hcore

/-! ### The other closers -/

omit [DecidableEq ι] in
/-- In a closed connection, a call that is not at the raw stream will not get there. -/
theorem Polled.not_io (h : Polled sh id op pc w effect pc' w') (htyped : op.Typed pc)
    (hbuffer : op.buffer ≠ []) (hclosed : sh.state.closed = true)
    (hpc : pc ≠ .stream ∧ pc ≠ .io) : pc' ≠ .stream ∧ pc' ≠ .io := by
  have hfinish : ∀ b outcome, PC.finish b outcome ≠ .stream ∧ PC.finish b outcome ≠ .io := by
    intro b outcome
    cases b <;> exact ⟨nofun, nofun⟩
  cases h with
  | entered =>
    rcases op.enter_cases with ⟨v, h, -⟩ | ⟨h, -⟩ | h | ⟨h, -⟩ | ⟨h, -⟩ <;> rw [h] <;>
      exact ⟨nofun, nofun⟩
  | eof b _ => exact hfinish b _
  | refused b flag _ => exact hfinish b _
  | passed b flag _ =>
    rcases op.afterEnsure_cases b flag with ⟨next, h⟩ | ⟨h, -⟩ | ⟨-, ⟨h, -⟩ | h⟩ <;> rw [h] <;>
      exact ⟨nofun, nofun⟩
  | idle b flag _ => exact hfinish b _
  | busy b flag _ => exact absurd htyped.1 hbuffer
  | granted _ => cases op <;> first | exact absurd rfl hbuffer | exact ⟨nofun, nofun⟩
  | stored _ => exact absurd htyped hbuffer
  | openSeen hopen => exact absurd (hclosed.symm.trans hopen) nofun
  | stream _ => exact absurd rfl hpc.1
  | accepted n _ _ _ => exact absurd rfl hpc.2
  | closing stage first error =>
    rcases pollClosing_cases sh stage first error with ⟨stage', first', -, h⟩ | ⟨e, -, h⟩ |
      ⟨-, h | h⟩ <;> rw [h] <;> exact ⟨nofun, nofun⟩
  | _ => exact ⟨nofun, nofun⟩

/-- A call that hands over nothing any more. -/
def Idle (core : Core ι) (i : ι) : Prop :=
  ∀ c, core.calls i = some c → c.op.buffer ≠ [] → c.pc ≠ .stream ∧ c.pc ≠ .io

theorem Idle.step (hidle : Idle core i) (hinv : WireInv core)
    (hclosed : core.shared.state.closed = true) (h : core.step label = some core') :
    Idle core' i ∧ core'.handed i = core.handed i := by
  obtain ⟨k, call', hstepped, hchange⟩ := hinv.change h
  by_cases hi : i = k
  · subst hi
    refine ⟨fun c hc hbuffer => ?_, ?_⟩
    · obtain rfl := Option.some.inj (hchange.calls_self.symm.trans hc)
      cases hstepped with
      | called id op hnone => exact ⟨nofun, nofun⟩
      | dropped id call effect hcall hdrop => exact ⟨nofun, nofun⟩
      | polled id choice call call' effect hcall hop hpolled =>
        rw [hop] at hbuffer
        exact hpolled.not_io (hinv.typed _ call hcall) hbuffer hclosed (hidle call hcall hbuffer)
    · obtain ⟨bytes, -, hhanded, hio⟩ := hchange.wire
      have hempty : bytes = [] := by
        by_contra hne
        obtain ⟨c, hc, hbuffer, hpc⟩ := hio hne
        exact (hidle c hc hbuffer).2 hpc
      rw [Core.handed_eq hchange.calls_self, hhanded, hempty, List.append_nil]
  · exact ⟨fun c hc => hidle c (hchange.calls_of_ne hi ▸ hc), hchange.handed_of_ne hi⟩

theorem Idle.handed_of_runs {allowed : Core ι → Label ι → Prop} (hidle : Idle core i)
    (hinv : WireInv core) (hclosed : core.shared.state.closed = true)
    (h : Runs Core.step allowed core core') : core'.handed i = core.handed i := by
  have hkeeps := h.invariant (fun c => (WireInv c ∧ c.shared.state.closed = true) ∧
    Idle c i ∧ c.handed i = core.handed i) ⟨⟨hinv, hclosed⟩, hidle, rfl⟩ ?_
  · exact hkeeps.2.2
  · rintro c label c' ⟨⟨hinv, hclosed⟩, hidle, hhanded⟩ - hstep
    obtain ⟨hidle', hhanded'⟩ := hidle.step hinv hclosed hstep
    exact ⟨⟨hinv.step hstep, load_of_step .closed rfl hstep hclosed⟩, hidle',
      hhanded'.trans hhanded⟩

/-! ### Behind a `close` that has returned -/

/-- **What is written after `close` has returned `Ok`.** Behind the `close` whose swap made the
transition nothing is; and behind any other, only the call that holds the write gate and has passed
its checks when it returns can hand over further bytes. -/
theorem nothing_after_close {allowed : Core ι × List (ι × Bool) → Label ι → Prop}
    {allowed' : Core ι → Label ι → Prop}
    (h : Runs (withHistory Core.step swaps) allowed ({}, []) (core, answers))
    (hcall : core.calls id = some call) (hop : call.op = .close)
    (hpc : call.pc = .done (.ok .unit)) :
    ((id, true) ∈ answers → ∀ core', Runs Core.step allowed' core core' →
      core'.shared.wire = core.shared.wire) ∧
    ∀ core', Runs Core.step allowed' core core' → ∀ i, core'.handed i ≠ core.handed i →
      core.shared.writeGate.holder = some i ∧
        ∃ c, core.calls i = some c ∧ (c.pc = .stream ∨ c.pc = .io) := by
  have hinv := doneInv_of_runs h
  have hwire := hinv.shut.close.wire
  refine ⟨fun hmem core' hruns => ?_, fun core' hruns i hne => ?_⟩
  · exact (hinv.returned id call hcall hop hmem .unit (Or.inr hpc)).wire_of_runs hwire hruns
  · have hclosed := hinv.closed id call hcall hop ⟨_, Or.inr hpc⟩
    by_contra hnot
    refine hne (Idle.handed_of_runs (fun c hc hbuffer => ?_) hwire hclosed hruns)
    refine not_or.mp fun hio => hnot ⟨?_, c, hc, hio⟩
    have hat := hwire.at_place i
    have hreads := Call.not_reads hbuffer
    have hplace : c.op.place c.pc = .holding := by
      rcases hio with h | h <;> simp [Op.place, h, hreads]
    rw [Core.place_eq hc, hplace] at hat
    exact hat

/-! The first closer has cancelled the token and waits for the gate, and the second has returned.
The send that holds the gate takes the other branch of its `select!`. -/

def secondCloserRun : List (Label ℕ) :=
  [Label.call 0 (.send [1, 2, 3]), .call 1 .close, .call 2 .close] ++
    List.replicate 4 (Label.poll 0 .go) ++ [Label.poll 0 .gate, .poll 0 .gate] ++
    List.replicate 5 (Label.poll 0 .go) ++ [Label.poll 0 (.accept 1)] ++
    List.replicate 8 (Label.poll 1 .go) ++ List.replicate 5 (Label.poll 2 .go)

/-- The send is interrupted at last, and the first closer returns. -/
def firstCloserRun : List (Label ℕ) :=
  [.poll 0 .closeToken, .poll 0 .go, .poll 1 .gate, .poll 1 .gate, .poll 1 .complete, .poll 1 .go]

def secondCloser : Core ℕ × List (ℕ × Bool) :=
  (runLabels (withHistory Core.step swaps) (fun _ _ => true) ({}, []) secondCloserRun).getD ({}, [])

def writtenCore : Core ℕ :=
  (runLabels Core.step (fun _ _ => true) secondCloser.1 [.poll 0 (.accept 1)]).getD {}

def firstCloser : Core ℕ × List (ℕ × Bool) :=
  (runLabels (withHistory Core.step swaps) (fun _ _ => true) secondCloser firstCloserRun).getD
    ({}, [])

def refusedCore : Core ℕ :=
  (runLabels Core.step (fun _ _ => true) firstCloser.1
    [.call 3 (.send [4]), .poll 3 .go, .poll 3 .go]).getD {}

theorem runs_secondCloser :
    Runs (withHistory Core.step swaps) (fun _ _ => True) ({}, [])
      (secondCloser.1, secondCloser.2) :=
  runs_of_runLabels (fun _ _ _ => trivial)
    (show runLabels _ (fun _ _ => true) ({}, []) secondCloserRun = some secondCloser from rfl)

theorem runs_writtenCore : Runs Core.step (fun _ _ => True) secondCloser.1 writtenCore :=
  runs_of_runLabels (fun _ _ _ => trivial)
    (show runLabels _ (fun _ _ => true) secondCloser.1 [.poll 0 (.accept 1)] = some writtenCore
      from rfl)

theorem runs_firstCloser :
    Runs (withHistory Core.step swaps) (fun _ _ => True) ({}, []) (firstCloser.1, firstCloser.2) :=
  runs_secondCloser.trans (runs_of_runLabels (fun _ _ _ => trivial)
    (show runLabels _ (fun _ _ => true) secondCloser firstCloserRun = some firstCloser from rfl))

theorem runs_refusedCore : Runs Core.step (fun _ _ => True) firstCloser.1 refusedCore :=
  runs_of_runLabels (fun _ _ _ => trivial)
    (show runLabels _ (fun _ _ => true) firstCloser.1 [.call 3 (.send [4]), .poll 3 .go,
      .poll 3 .go] = some refusedCore from rfl)

/-- A `close` has returned `Ok`, and a byte is handed over. -/
theorem write_after_close :
    Runs Core.step (fun _ _ => True) {} secondCloser.1 ∧
      (∃ c, secondCloser.1.calls 2 = some c ∧ c.op = .close ∧ c.pc = .done (.ok .unit)) ∧
      Runs Core.step (fun _ _ => True) secondCloser.1 writtenCore ∧
      secondCloser.1.shared.wire = [1] ∧ writtenCore.shared.wire = [1, 2] :=
  ⟨runs_secondCloser.of_withHistory fun _ _ _ => trivial, ⟨_, rfl, rfl, rfl⟩, runs_writtenCore,
    rfl, rfl⟩

theorem nothing_after_close_example :
    refusedCore.shared.wire = firstCloser.1.shared.wire ∧
      secondCloser.1.shared.writeGate.holder = some 0 := by
  refine ⟨?_, ?_⟩
  · exact (nothing_after_close runs_firstCloser (show firstCloser.1.calls 1 = some _ from rfl) rfl
      rfl).1 (by decide) _ runs_refusedCore
  · exact ((nothing_after_close runs_secondCloser (show secondCloser.1.calls 2 = some _ from rfl)
      rfl rfl).2 _ runs_writtenCore 0 (by decide)).1

end Transport

end Taunicorn
