import Taunicorn.Python.Writes
import Taunicorn.Transport.Closing

/-!
# What the guards leave behind

The guard of a call that has failed or was dropped spawns `close` on a connection and
`shutdown_write` on a write half. This module says what the task has done once it has finished.

On a connection it has closed it. The guard does not ask why the call has failed, so a call that
the core has rejected without any progress closes the connection too: `rejected_write_closes`.

On a write half it has found the flag of the write direction set, or has set it and shut the raw
stream down. Who finds the flag set relies on the call that has set it. That call is past its store
when it awaits the raw shutdown, and where it is dropped there, its guard's task finds the flag and
does nothing: `shutdown_lost`. Under the condition that no call is dropped there,
`shutdown_survives` holds.

## Main results

* `guardInv_of_runs` — the guard of a failed or cancelled call has spawned its task
* `stopping_of_runs` — what a finished task has done
* `rejected_write_closes` — a call rejected without progress ends the connection
* `shutdown_survives` — write shutdown survives cancellation, under the condition
-/

namespace Taunicorn

namespace Transport

variable {ι : Type} {sh : Shared ι} {id : ι} {op : Op} {pc pc' : PC} {w w' : ℕ} {effect : Effect}
  {core core' : Core ι} {call call' : Call} {label : Label ι} {answers : List (ι × Bool)}

/-! ### Calls that stop the write direction -/

/-- What a `close` or a `shutdown_write` has found or done, where it stands. -/
def Stopping (s : ConnectionState) : Op → PC → Prop
  | .close, .start => True
  | .close, .closing .closed _ _ => True
  | .close, .closing _ _ _ => s.closed = true
  | .close, .gate => s.closed = true
  | .close, .gateWait => s.closed = true
  | .close, .io => s.closed = true
  | .close, .unwind _ => s.closed = true
  | .close, .done _ => s.closed = true
  | .close, .dropped => True
  | .close, _ => False
  | .shutdownWrite, .start => True
  | .shutdownWrite, .idle _ flag => flag = .closed ∨ flag = .writeShutdown
  | .shutdownWrite, .gate => True
  | .shutdownWrite, .gateWait => True
  | .shutdownWrite, .store => True
  | .shutdownWrite, .streamClosed => s.writeShutdown = true
  | .shutdownWrite, .stream => s.writeShutdown = true
  | .shutdownWrite, .io => s.writeShutdown = true
  | .shutdownWrite, .closing _ _ error => error ≠ none ∧ s.writeShutdown = true
  | .shutdownWrite, .unwind _ => s.closed = true ∨ s.writeShutdown = true
  | .shutdownWrite, .done _ => s.closed = true ∨ s.writeShutdown = true
  | .shutdownWrite, .dropped => True
  | .shutdownWrite, _ => False
  | _, _ => True

theorem Stopping.mono {s s' : ConnectionState} (h : Stopping s op pc)
    (hclosed : s.closed = true → s'.closed = true)
    (hwrite : s.writeShutdown = true → s'.writeShutdown = true) : Stopping s' op pc := by
  cases op with
  | close =>
    cases pc with
    | closing stage _ _ => cases stage <;> first | trivial | exact hclosed h
    | gate => exact hclosed h
    | gateWait => exact hclosed h
    | io => exact hclosed h
    | unwind _ => exact hclosed h
    | done _ => exact hclosed h
    | _ => exact h
  | shutdownWrite =>
    cases pc with
    | streamClosed => exact hwrite h
    | stream => exact hwrite h
    | io => exact hwrite h
    | closing _ _ _ => exact h.imp_right hwrite
    | unwind _ => exact h.imp hclosed hwrite
    | done _ => exact h.imp hclosed hwrite
    | _ => exact h
  | _ => trivial

theorem Polled.stopping_close [DecidableEq ι] (h : Polled sh id .close pc w effect pc' w')
    (hstopping : Stopping sh.state .close pc)
    (htoken : sh.closeToken = true → sh.state.closed = true) :
    Stopping (sh.perform id .close effect).state .close pc' := by
  cases h with
  | entered => trivial
  | eof b _ => exact hstopping.elim
  | notEof b _ => exact hstopping.elim
  | refused b flag _ => exact hstopping.elim
  | passed b flag _ => exact hstopping.elim
  | idle b flag _ => exact hstopping.elim
  | busy b flag _ => exact hstopping.elim
  | dated hop => exact absurd hop nofun
  | overflowed hop => exact absurd hop nofun
  | requested => exact hstopping
  | gaveUp e hready => exact htoken (hready.resolve_left nofun)
  | granted _ => exact hstopping
  | withdrew e _ => exact hstopping
  | stored hstored => exact absurd hstored nofun
  | readCancelled => exact hstopping.elim
  | closedSeen e hclosed => exact hclosed
  | openSeen _ => exact hstopping.elim
  | noStream e _ => exact hstopping.elim
  | stream _ => exact hstopping.elim
  | interrupted e _ => exact hstopping
  | accepted n hwhole _ _ => exact absurd hwhole nofun
  | completed n hwhole _ _ => exact absurd hwhole nofun
  | failed e hne => exact absurd rfl hne
  | readEof hreads => exact absurd hreads nofun
  | answered outcome _ _ => exact hstopping
  | eofStored => exact hstopping.elim
  | released outcome => exact hstopping
  | closing stage first error =>
    cases stage with
    | closed => exact rfl
    | writeShutdown => cases first <;> cases error <;> exact hstopping
    | stream =>
      rw [show pollClosing sh .stream first error = (_, .takeStream) from rfl]
      cases error with
      | some e => exact hstopping
      | none =>
        change Stopping sh.state .close (if sh.stream then PC.gate else .done (.ok .unit))
        split <;> exact hstopping
    | _ => exact hstopping
  | acceptedOnce data n hop => exact absurd hop nofun

theorem Polled.stopping_shutdownWrite [DecidableEq ι]
    (h : Polled sh id .shutdownWrite pc w effect pc' w')
    (hstopping : Stopping sh.state .shutdownWrite pc)
    (htoken : sh.closeToken = true → sh.state.closed = true) :
    Stopping (sh.perform id .shutdownWrite effect).state .shutdownWrite pc' := by
  cases h with
  | entered => exact Or.inl rfl
  | eof b _ => exact hstopping.elim
  | notEof b _ => exact hstopping.elim
  | refused b flag _ => exact hstopping.elim
  | passed b flag _ => exact hstopping.elim
  | idle b flag hset =>
    have hstopped : sh.state.closed = true ∨ sh.state.writeShutdown = true := by
      rcases hstopping with rfl | rfl
      · exact Or.inl hset
      · exact Or.inr hset
    cases b <;> exact hstopped
  | busy b flag _ =>
    rcases hstopping with rfl | rfl
    · exact Or.inr rfl
    · cases b <;> trivial
  | dated hop => exact absurd hop nofun
  | overflowed hop => exact absurd hop nofun
  | requested => trivial
  | gaveUp e hready => exact Or.inl (htoken (hready.resolve_left nofun))
  | granted _ => exact Or.inl rfl
  | withdrew e hready =>
    rcases hready with hreads | hclose | ⟨data, timeout, hop⟩
    · exact absurd hreads nofun
    · exact Or.inl (htoken hclose)
    · exact absurd hop nofun
  | stored hstored =>
    obtain ⟨rfl, rfl⟩ := Prod.mk.inj (Option.some.inj hstored)
    exact rfl
  | readCancelled => exact hstopping.elim
  | closedSeen e hclosed => exact Or.inl hclosed
  | openSeen _ => exact hstopping
  | noStream e _ => exact Or.inr hstopping
  | stream _ => exact hstopping
  | interrupted e _ => exact Or.inr hstopping
  | accepted n hwhole _ _ => exact absurd hwhole nofun
  | completed n hwhole _ _ => exact absurd hwhole nofun
  | acceptedOnce data n hop => exact absurd hop nofun
  | failed e _ => exact ⟨nofun, hstopping⟩
  | readEof hreads => exact absurd hreads nofun
  | answered outcome _ _ => exact Or.inr hstopping
  | eofStored => exact hstopping.elim
  | closing stage first error =>
    obtain ⟨hne, hwrite⟩ := hstopping
    have hwrite' : (sh.perform id .shutdownWrite
        (pollClosing sh stage first error).2).state.writeShutdown = true := by
      cases stage <;> first | exact hwrite | rfl
    rcases pollClosing_cases sh stage first error with ⟨stage', first', -, h⟩ | ⟨e, -, h⟩ |
      ⟨hnone, -⟩
    · rw [h]; exact ⟨hne, hwrite'⟩
    · rw [h]; exact Or.inr hwrite'
    · exact absurd hnone hne
  | released outcome => exact hstopping

variable [DecidableEq ι]

/-- **What a call that stops the write direction has found or done.** -/
theorem stopping_of_runs {allowed : Core ι → Label ι → Prop} (h : Runs Core.step allowed {} core) :
    ∀ id call, core.calls id = some call → Stopping core.shared.state call.op call.pc := by
  suffices hinv : (∃ answers, CloseInv core answers) ∧ ∀ id call, core.calls id = some call →
      Stopping core.shared.state call.op call.pc from hinv.2
  refine h.invariant (fun core => (∃ answers, CloseInv core answers) ∧
    ∀ id call, core.calls id = some call → Stopping core.shared.state call.op call.pc)
    ⟨⟨[], closeInv_init⟩, fun _ _ h => absurd h nofun⟩ ?_
  rintro core label core' ⟨⟨answers, hclose⟩, hstopping⟩ - hstep
  refine ⟨⟨_, hclose.step hstep⟩, fun i c hc => ?_⟩
  have hclosed := load_of_step .closed rfl hstep
  have hwrite := load_of_step .writeShutdown rfl hstep
  have htoken : core.shared.closeToken = true → core.shared.state.closed = true := by
    intro htoken
    by_contra hopen
    exact absurd (htoken.symm.trans (hclose.opened (by simpa using hopen)).2.1) nofun
  obtain ⟨id, call', hstepped⟩ := Core.stepped hstep
  rw [hstepped.calls.1] at hc
  by_cases hi : i = id
  · subst hi
    rw [Function.update_self, Option.some.injEq] at hc
    subst hc
    cases hstepped with
    | called id op hnone => cases op <;> trivial
    | polled id choice call call' effect hcall hop hpolled =>
      have hold := hstopping i call hcall
      rw [hop]
      obtain ⟨op, pc, w⟩ := call
      dsimp only at hpolled hold ⊢
      cases op with
      | close => exact hpolled.stopping_close hold htoken
      | shutdownWrite => exact hpolled.stopping_shutdownWrite hold htoken
      | _ => trivial
    | dropped id call effect hcall hdrop =>
      obtain ⟨op, pc, w⟩ := call
      cases op <;> trivial
  · rw [Function.update_of_ne hi] at hc
    exact (hstopping i c hc).mono hclosed hwrite

/-! ### The raw shutdown -/

/-- The calls of `shutdown_write` whose raw shutdown completes in a step. -/
def shuts (core : Core ι) : Label ι → List ι
  | .poll id .complete =>
    match core.calls id with
    | some ⟨.shutdownWrite, .io, _⟩ => [id]
    | _ => []
  | _ => []

/-- No `shutdown_write` is dropped while its raw shutdown is pending. -/
def KeepsShutdowns (core : Core ι) (label : Label ι) : Prop :=
  ∀ id call, label = .drop id → core.calls id = some call → call.op = .shutdownWrite →
    call.pc ≠ .io

omit [DecidableEq ι] in
theorem keepsShutdowns_call (core : Core ι) (id : ι) (op : Op) :
    KeepsShutdowns core (.call id op) := by
  intro i call hlabel
  cases hlabel

/-- Where a `shutdown_write` stands between its store and its return. -/
def Shutting : PC → Prop
  | .streamClosed => True
  | .stream => True
  | .io => True
  | .closing .closed _ _ => True
  | _ => False

/-- **The invariant of the raw shutdown.** While the connection is open, whoever has set the flag
has shut the raw stream down or is about to. -/
def ShutsInv (x : Core ι × List ι) : Prop :=
  x.1.shared.state.writeShutdown = true → x.1.shared.state.closed = true ∨ x.2 ≠ [] ∨
    ∃ id call, x.1.calls id = some call ∧ call.op = .shutdownWrite ∧ Shutting call.pc

omit [DecidableEq ι] in
/-- The raw shutdown completes or fails, and nothing interrupts it. -/
theorem poll_io_shutdownWrite [DecidableEq ι] {choice : Choice}
    (h : Call.poll sh id ⟨.shutdownWrite, .io, w⟩ choice = some (call', effect)) :
    choice = .complete ∨ Shutting call'.pc := by
  cases choice with
  | complete => exact Or.inl rfl
  | fail text =>
    obtain ⟨rfl, -⟩ := Prod.mk.inj (Option.some.inj h)
    exact Or.inr trivial
  | _ => exact absurd h nofun

/-- A step on the way of a `shutdown_write` leads on, or completes the raw shutdown, or finds the
connection closed or closes it. -/
theorem poll_shutting {choice : Choice} {call : Call}
    (h : call.poll core.shared id choice = some (call', effect)) (hcall : core.calls id = some call)
    (hop : call.op = .shutdownWrite) (hshutting : Shutting call.pc)
    (hstream : core.shared.stream = false → core.shared.state.closed = true) :
    (core.shared.perform id call.op effect).state.closed = true ∨
      shuts core (.poll id choice) ≠ [] ∨ Shutting call'.pc := by
  obtain ⟨op, pc, w⟩ := call
  dsimp only at hop hshutting
  subst hop
  cases pc with
  | io =>
    rcases poll_io_shutdownWrite h with rfl | hnext
    · refine Or.inr (Or.inl ?_)
      simp [shuts, hcall]
    · exact Or.inr (Or.inr hnext)
  | streamClosed =>
    obtain ⟨-, hpolled⟩ := polled_of_poll h
    generalize call'.pc = pc' at hpolled
    cases hpolled with
    | closedSeen e hclosed => exact Or.inl hclosed
    | openSeen _ => exact Or.inr (Or.inr trivial)
  | stream =>
    obtain ⟨-, hpolled⟩ := polled_of_poll h
    generalize call'.pc = pc' at hpolled
    cases hpolled with
    | noStream e hempty => exact Or.inl (hstream hempty)
    | stream _ => exact Or.inr (Or.inr trivial)
  | closing stage first error =>
    obtain rfl : stage = .closed := by
      cases stage <;> first | rfl | exact hshutting.elim
    obtain ⟨-, hpolled⟩ := polled_of_poll h
    generalize call'.pc = pc' at hpolled
    cases hpolled with
    | closing _ _ _ => exact Or.inl rfl
  | _ => exact hshutting.elim

omit [DecidableEq ι] in
/-- **Who sets the flag of the write direction.** -/
theorem Polled.sets_writeShutdown [DecidableEq ι] (h : Polled sh id op pc w effect pc' w')
    (hset : (sh.perform id op effect).state.writeShutdown = true) :
    sh.state.writeShutdown = true ∨ (op = .shutdownWrite ∧ Shutting pc') ∨
      ∃ stage first error, pc = .closing stage first error ∧ stage ≠ .closed := by
  cases h with
  | requested => exact Or.inl (by simpa [Shared.perform] using hset)
  | withdrew e _ => exact Or.inl (by simpa [Shared.perform] using hset)
  | released outcome => exact Or.inl (by simpa [Shared.perform] using hset)
  | stored hstored =>
    cases Op.stores_of_stored hstored
    · exact Or.inl hset
    · exact Or.inr (Or.inl ⟨rfl, trivial⟩)
    · exact Or.inl hset
    · exact Or.inl hset
  | closing stage first error =>
    cases stage with
    | closed => exact Or.inl hset
    | _ => exact Or.inr (Or.inr ⟨_, first, error, rfl, (by rintro ⟨⟩)⟩)
  | _ => exact Or.inl hset

theorem ShutsInv.set (hclose : CloseInv core answers) (h : core.step label = some core')
    (hclear : core.shared.state.writeShutdown = false)
    (hset : core'.shared.state.writeShutdown = true) : core'.shared.state.closed = true ∨
      ∃ id call, core'.calls id = some call ∧ call.op = .shutdownWrite ∧ Shutting call.pc := by
  have hopen := load_of_step .closed rfl h
  obtain ⟨id, call', hstepped⟩ := Core.stepped h
  have hmoved : core'.shared.state ≠ core.shared.state := fun heq =>
    absurd (hset.symm.trans ((congrArg ConnectionState.writeShutdown heq).trans hclear)) nofun
  cases hstepped with
  | called id op hnone => exact absurd rfl hmoved
  | dropped id call effect hcall hdrop =>
    refine absurd ?_ hmoved
    rcases (drop_eq_some hdrop).2 with rfl | rfl
    · rfl
    · simp [Shared.perform]
  | polled id choice call call' effect hcall hop hpolled =>
    rcases hpolled.sets_writeShutdown hset with hold | ⟨hshut, hpc⟩ |
      ⟨stage, first, error, hpc, hne⟩
    · exact absurd (hold.symm.trans hclear) nofun
    · exact Or.inr ⟨id, call', Function.update_self .., hop.trans hshut, hpc⟩
    · refine Or.inl (hopen ?_)
      have hbehind := hclose.behind id call hcall
      rw [hpc] at hbehind
      cases stage with
      | closed => exact absurd rfl hne
      | _ => exact hbehind.1

theorem ShutsInv.step {x : Core ι × List ι} (hinv : ShutsInv x) (hclose : CloseInv x.1 answers)
    (hkeeps : KeepsShutdowns x.1 label) (h : x.1.step label = some core') :
    ShutsInv (core', x.2 ++ shuts x.1 label) := by
  intro hset
  have hopen := load_of_step .closed rfl h
  cases hflag : x.1.shared.state.writeShutdown with
  | false => exact (ShutsInv.set hclose h hflag hset).imp_right Or.inr
  | true =>
    rcases hinv hflag with hclosed | hshown | ⟨id, call, hcall, hop, hshutting⟩
    · exact Or.inl (hopen hclosed)
    · exact Or.inr (Or.inl (List.append_ne_nil_of_left_ne_nil hshown _))
    · -- the call on its way steps on, unless another one steps
      obtain ⟨i, c, hstepped⟩ := Core.stepped h
      by_cases hi : id = i
      · subst hi
        cases hstepped with
        | called id op hnone => exact absurd (hnone.symm.trans hcall) nofun
        | dropped id c effect hc hdrop =>
          obtain rfl := Option.some.inj (hcall.symm.trans hc)
          refine absurd hshutting ?_
          rcases (drop_eq_some hdrop).1 with hpc | hpc | hpc
          · exact hpc ▸ not_false
          · exact hpc ▸ not_false
          · exact absurd hpc (hkeeps id call rfl hcall hop)
        | polled id choice c c' effect hc _ hpolled =>
          simp only [Core.step, hcall] at h
          obtain ⟨⟨call', effect⟩, hpoll, heq⟩ := Option.map_eq_some_iff.mp h
          rw [← heq]
          have hstream : x.1.shared.stream = false → x.1.shared.state.closed = true := by
            intro hempty
            by_contra hclosed
            exact absurd (hempty.symm.trans (hclose.opened (by simpa using hclosed)).2.2) nofun
          rcases poll_shutting hpoll hcall hop hshutting hstream with hclosed | hshuts | hnext
          · exact Or.inl hclosed
          · exact Or.inr (Or.inl (List.append_ne_nil_of_right_ne_nil _ hshuts))
          · exact Or.inr (Or.inr ⟨id, call', Function.update_self ..,
              (polled_of_poll hpoll).1.trans hop, hnext⟩)
      · refine Or.inr (Or.inr ⟨id, call, ?_, hop, hshutting⟩)
        rw [hstepped.calls.1, Function.update_of_ne hi]
        exact hcall

/-- **The raw stream is shut down, or is about to be.** -/
theorem shutsInv_of_runs {x : Core ι × List ι}
    (h : Runs (withHistory Core.step shuts) (fun x => KeepsShutdowns x.1) ({}, []) x) :
    ShutsInv x := by
  suffices hinv : (∃ answers, CloseInv x.1 answers) ∧ ShutsInv x from hinv.2
  refine h.invariant (fun x => (∃ answers, CloseInv x.1 answers) ∧ ShutsInv x)
    ⟨⟨[], closeInv_init⟩, fun h => absurd h nofun⟩ ?_
  rintro x label ⟨core', shown⟩ ⟨⟨answers, hclose⟩, hinv⟩ hkeeps hstep
  obtain ⟨hcore, hshown⟩ := withHistory_eq_some.mp hstep
  dsimp only at hcore hshown
  subst hshown
  exact ⟨⟨_, hclose.step hcore⟩, hinv.step hclose hkeeps hcore⟩

end Transport

namespace Python

open Transport

variable {ι κ : Type} [DecidableEq ι] [DecidableEq κ] {owner : Owner} {w w' : Writes ι κ}
  {label : PyLabel ι κ} {id : ι}

/-! ### The tasks of the guards -/

/-- The block has ended and its guard was not told of a success. A block that was never polled has
no guard. -/
def PyPC.Failed : PyPC → Prop
  | .done (.error _) => True
  | .cancelled => True
  | _ => False

/-- **The invariant of the guards.** -/
structure GuardInv (owner : Owner) (w : Writes ι κ) : Prop where
  awaited : ∀ id, w.core.calls (.awaited id) ≠ none → ∃ call, w.calls id = some call ∧
    call.pc ≠ .start
  /-- The guard of a failed call has spawned its task. -/
  spawned : ∀ id call, w.calls id = some call → call.pc.Failed →
    w.core.calls (.awaited id) ≠ none → w.core.calls (.spawned id) ≠ none
  task : ∀ id task, w.core.calls (.spawned id) = some task → task.op = owner.cleanup ∧
    task.pc ≠ .dropped

omit [DecidableEq ι] [DecidableEq κ] in
theorem guardInv_init (owner : Owner) : GuardInv owner ({} : Writes ι κ) where
  awaited _ h := absurd rfl h
  spawned _ _ h := absurd h nofun
  task _ _ h := absurd h nofun

omit [DecidableEq κ] in
/-- A step of one async block keeps the invariant if it does so for its own call. -/
theorem GuardInv.set (hinv : GuardInv owner w) {call : PyCall} {core : Core (CoreCall ι κ)}
    (hstart : call.pc ≠ .start ∨ core.calls (.awaited id) = none)
    (hfailed : call.pc.Failed → core.calls (.awaited id) ≠ none → core.calls (.spawned id) ≠ none)
    (hawaited : ∀ i, i ≠ id → core.calls (.awaited i) ≠ none → w.core.calls (.awaited i) ≠ none)
    (hspawned : ∀ i, w.core.calls (.spawned i) ≠ none → core.calls (.spawned i) ≠ none)
    (htask : ∀ i task, core.calls (.spawned i) = some task → task.op = owner.cleanup ∧
      task.pc ≠ .dropped) :
    GuardInv owner { w.set id call with core := core } where
  awaited i h := by
    change ∃ c, Function.update w.calls id (some call) i = some c ∧ _
    by_cases hi : i = id
    · subst hi
      rw [Function.update_self]
      exact ⟨call, rfl, hstart.resolve_right h⟩
    · rw [Function.update_of_ne hi]
      exact hinv.awaited i (hawaited i hi h)
  spawned i c hc hpc h := by
    change Function.update w.calls id (some call) i = some c at hc
    by_cases hi : i = id
    · subst hi
      rw [Function.update_self, Option.some.injEq] at hc
      exact hfailed (hc ▸ hpc) h
    · rw [Function.update_of_ne hi] at hc
      exact hspawned i (hinv.spawned i c hc hpc (hawaited i hi h))
  task := htask

/-- A step of the core that is not the call or the drop of a task keeps what is known of the
tasks. -/
theorem GuardInv.task_of_step (hinv : GuardInv owner w) {l : Label (CoreCall ι κ)}
    {core : Core (CoreCall ι κ)} (h : w.core.step l = some core)
    (hcall : ∀ i op, l = .call (.spawned i) op → op = owner.cleanup)
    (hdrop : ∀ i, l ≠ .drop (.spawned i)) :
    ∀ i task, core.calls (.spawned i) = some task → task.op = owner.cleanup ∧
      task.pc ≠ .dropped := by
  intro i task htask
  rcases Core.call_of_step h htask with ⟨hl, hpc⟩ | ⟨old, hold, hop, -, hdropped⟩
  · exact ⟨hcall i _ hl, hpc ▸ nofun⟩
  · obtain ⟨hcleanup, hne⟩ := hinv.task i old hold
    exact ⟨hop.trans hcleanup, fun h => (hdropped h).elim hne (hdrop i)⟩

/-- No awaited call is made by any other step. -/
theorem Writes.awaited_of_step {l : Label (CoreCall ι κ)} {core : Core (CoreCall ι κ)}
    (h : w.core.step l = some core) (hcall : ∀ op, l ≠ .call (.awaited id) op)
    (hawaited : core.calls (.awaited id) ≠ none) : w.core.calls (.awaited id) ≠ none := by
  obtain ⟨c, hc⟩ := Option.ne_none_iff_exists'.mp hawaited
  rcases Core.call_of_step h hc with ⟨hl, -⟩ | ⟨old, hold, -⟩
  · exact absurd hl (hcall _)
  · exact hold ▸ Option.some_ne_none old

theorem GuardInv.step (hinv : GuardInv owner w) (h : w.step owner label = some w') :
    GuardInv owner w' := by
  cases Writes.stepped h with
  | called id op hnone _ =>
    refine hinv.set (Or.inr ?_) nofun (fun _ _ h => h) (fun _ h => h) hinv.task
    by_contra hawaited
    obtain ⟨call, hcall, -⟩ := hinv.awaited id hawaited
    exact absurd (hnone.symm.trans hcall) nofun
  | started id call core _ _ hcore =>
    refine hinv.set (Or.inl nofun) nofun (fun i hi => Writes.awaited_of_step hcore ?_)
      (fun i => Core.calls_ne_none_of_step hcore) (hinv.task_of_step hcore nofun nofun)
    rintro op hl
    cases hl
    exact hi rfl
  | returned id call outcome _ _ _ =>
    cases outcome with
    | ok v => exact hinv.set (Or.inl nofun) nofun (fun _ _ h => h) (fun _ h => h) hinv.task
    | error e => exact hinv.set (Or.inl nofun) nofun (fun _ _ h => h) (fun _ h => h) hinv.task
  | unwound id call _ _ _ =>
    exact hinv.set (Or.inl nofun) nofun (fun _ _ h => h) (fun _ h => h) hinv.task
  | unguarded id call error core _ _ hcore =>
    refine hinv.set (Or.inl ?_) (fun _ _ => ?_) (fun i _ => Writes.awaited_of_step hcore nofun)
      (fun i => Core.calls_ne_none_of_step hcore) (hinv.task_of_step hcore ?_ nofun)
    · cases error <;> exact nofun
    · obtain ⟨i, c, hstepped⟩ := Core.stepped hcore
      cases hstepped with
      | called _ _ _ => simp
    · rintro i op hl
      cases hl
      rfl
  | unstarted id call hcall hpc =>
    refine hinv.set (Or.inl nofun) (fun _ hawaited => ?_) (fun _ _ h => h) (fun _ h => h) hinv.task
    obtain ⟨c, hc, hne⟩ := hinv.awaited id hawaited
    obtain rfl := Option.some.inj (hcall.symm.trans hc)
    exact absurd hpc hne
  | dropped id call core _ _ hcore =>
    exact hinv.set (Or.inl nofun) nofun (fun i _ => Writes.awaited_of_step hcore nofun)
      (fun i => Core.calls_ne_none_of_step hcore) (hinv.task_of_step hcore nofun nofun)
  | core l core hown hcore =>
    have hawaited : ∀ i, core.calls (.awaited i) ≠ none → w.core.calls (.awaited i) ≠ none := by
      refine fun i => Writes.awaited_of_step hcore ?_
      rintro op rfl
      exact absurd hown nofun
    refine ⟨fun i h => hinv.awaited i (hawaited i h), fun i call hcall hpc h => ?_,
      hinv.task_of_step hcore ?_ ?_⟩
    · exact Core.calls_ne_none_of_step hcore (hinv.spawned i call hcall hpc (hawaited i h))
    · rintro i op rfl
      exact absurd hown nofun
    · rintro i rfl
      exact absurd hown nofun

theorem guardInv_of_runs {allowed : Writes ι κ → PyLabel ι κ → Prop}
    (h : Runs (Writes.step owner) allowed {} w) : GuardInv owner w :=
  h.invariant (GuardInv owner) (guardInv_init owner) fun _ _ _ hinv _ => hinv.step

/-! ### A write rejected without progress -/

/-- The core has rejected the awaited call before it took the write gate, and before any byte was
written: it is paused, the send direction is shut down, or the gate has not come in time. -/
def Rejected (w : Writes ι κ) (id : ι) : Prop :=
  ∃ call text, w.core.calls (.awaited id) = some call ∧ call.written = 0 ∧
    call.pc = .done (.error (.msg text)) ∧
    (((text = Flag.paused.text ∨ text = Flag.writeShutdown.text) ∧
        .awaited id ∉ w.core.shared.writeGate.granted) ∨
      text = "socket write timeout before any write progress")

/-- The call has raised its error, and every task it has spawned has finished. -/
def Finished (w : Writes ι κ) (id : ι) : Prop :=
  (∃ call e, w.calls id = some call ∧ call.pc = .done (.error e)) ∧
    ∀ task, w.core.calls (.spawned id) = some task → ¬task.pc.Live

/-- The flags but `paused`. -/
def SameFlags (s s' : ConnectionState) : Prop :=
  s'.closed = s.closed ∧ s'.readShutdown = s.readShutdown ∧ s'.writeShutdown = s.writeShutdown ∧
    s'.peerSentEof = s.peerSentEof

/-- A finished task has stopped what it was spawned to stop. -/
theorem GuardInv.stopped {allowed : Writes ι κ → PyLabel ι κ → Prop}
    (h : Runs (Writes.step owner) allowed {} w) {call : PyCall} (hcall : w.calls id = some call)
    (hfailed : call.pc.Failed) (hawaited : w.core.calls (.awaited id) ≠ none)
    (hdone : ∀ task, w.core.calls (.spawned id) = some task → ¬task.pc.Live) :
    ∃ outcome, Stopping w.core.shared.state owner.cleanup (.done outcome) := by
  have hinv := guardInv_of_runs h
  obtain ⟨task, htask⟩ :=
    Option.ne_none_iff_exists'.mp (hinv.spawned id call hcall hfailed hawaited)
  obtain ⟨hop, hdropped⟩ := hinv.task id task htask
  have hstopping := stopping_of_runs (Writes.core_runs_all h) _ task htask
  rw [hop] at hstopping
  have hlive := hdone task htask
  cases hpc : task.pc with
  | done outcome => exact ⟨outcome, hpc ▸ hstopping⟩
  | dropped => exact absurd hpc hdropped
  | panicked =>
    rw [hpc] at hstopping
    cases owner <;> exact hstopping.elim
  | _ =>
    rw [hpc] at hlive
    exact absurd trivial hlive

/-- **A write rejected without progress ends the connection**: the flags are not as they were. -/
theorem rejected_write_closes
    (h : Runs (Writes.step .connection) (fun _ _ => True) ({} : Writes ι κ) w)
    (hopen : w.core.shared.state.closed = false)
    (h' : Runs (Writes.step .connection) (fun _ _ => True) w w') (hrejected : Rejected w' id)
    (hfinished : Finished w' id) :
    ¬SameFlags w.core.shared.state w'.core.shared.state := by
  obtain ⟨call, text, hcall, -⟩ := hrejected
  obtain ⟨⟨py, e, hpy, hpc⟩, hdone⟩ := hfinished
  obtain ⟨outcome, hstopped⟩ := GuardInv.stopped (h.trans h') hpy (hpc ▸ trivial)
    (hcall ▸ Option.some_ne_none call) hdone
  have hclosed : w'.core.shared.state.closed = true := hstopped
  rintro ⟨hsame, -⟩
  exact absurd ((hclosed.symm.trans hsame).trans hopen) nofun

/-! ### A paused connection -/

/-- The steps of one call, of its awaited operation and of its task. -/
def Only (id : ι) : PyLabel ι κ → Bool
  | .call i _ => i = id
  | .poll i => i = id
  | .core (.poll (.awaited i) _) => i = id
  | .core (.poll (.spawned i) _) => i = id
  | _ => false

/-- The connection is paused. -/
def pausing : List (PyLabel Bool Unit) :=
  .core (.call (.other ()) .pause) :: List.replicate 3 (.core (.poll (.other ()) .go))

/-- The write direction is shut down by the first call. -/
def shutting : List (PyLabel Bool Unit) :=
  let awaited (choice : Choice) : PyLabel Bool Unit := .core (.poll (.awaited false) choice)
  [.call false .shutdownWrite, .poll false] ++ List.replicate 3 (awaited .go)
    ++ List.replicate 2 (awaited .gate) ++ List.replicate 5 (awaited .go) ++ [awaited .complete]
    ++ [awaited .go, .poll false]

/-- The second call is rejected after `n` of its loads, and its guard's task closes the
connection. -/
def rejecting (n : ℕ) : List (PyLabel Bool Unit) :=
  let spawned (choice : Choice) : PyLabel Bool Unit := .core (.poll (.spawned true) choice)
  [PyLabel.call true (.send [1, 2]), .poll true]
    ++ List.replicate (n + 1) (PyLabel.core (.poll (.awaited true) .go))
    ++ [PyLabel.poll true, .poll true] ++ List.replicate 8 (spawned .go)
    ++ List.replicate 2 (spawned .gate) ++ [spawned .complete, spawned .go]

/-- Where the labels lead. -/
def after (labels : List (PyLabel Bool Unit)) : Writes Bool Unit :=
  (runLabels (Writes.step .connection) (fun _ _ => true) {} labels).getD {}

theorem runs_pausing : Runs (Writes.step .connection) (fun _ _ => True) {} (after pausing) :=
  runs_of_runLabels (fun _ _ _ => trivial)
    (show runLabels _ (fun _ _ => true) {} pausing = some (after pausing) from rfl)

theorem runs_shutting : Runs (Writes.step .connection) (fun _ _ => True) {} (after shutting) :=
  runs_of_runLabels (fun _ _ _ => trivial)
    (show runLabels _ (fun _ _ => true) {} shutting = some (after shutting) from rfl)

/-- Where the rejection leads from there, nobody else stepping. -/
theorem runs_rejecting {labels : List (PyLabel Bool Unit)} {n : ℕ}
    (h : runLabels (Writes.step .connection) (fun _ => Only true) (after labels) (rejecting n)
      = some (after (labels ++ rejecting n))) :
    Runs (Writes.step .connection) (fun _ label => Only true label = true) (after labels)
      (after (labels ++ rejecting n)) :=
  runs_of_runLabels (fun _ _ h => h) h

theorem rejected_of_rejecting (labels : List (PyLabel Bool Unit)) (n : ℕ) {text : String}
    (hcall : (after (labels ++ rejecting n)).core.calls (.awaited true)
      = some ⟨.send [1, 2], .done (.error (.msg text)), 0⟩)
    (htext : text = Flag.paused.text ∨ text = Flag.writeShutdown.text)
    (hgranted : .awaited true ∉ (after (labels ++ rejecting n)).core.shared.writeGate.granted)
    (hpy : (after (labels ++ rejecting n)).calls true
      = some ⟨.send [1, 2], .done (.error (.msg text))⟩)
    (htask : (after (labels ++ rejecting n)).core.calls (.spawned true)
      = some ⟨.close, .done (.ok .unit), 0⟩) :
    Rejected (after (labels ++ rejecting n)) true ∧
      Finished (after (labels ++ rejecting n)) true := by
  refine ⟨⟨_, text, hcall, rfl, rfl, Or.inl ⟨htext, hgranted⟩⟩, ⟨_, _, hpy, rfl⟩, fun task h => ?_⟩
  obtain rfl := Option.some.inj (htask.symm.trans h)
  exact not_false

/-- A send that finds the write direction shut down ends the read direction too. -/
theorem rejected_write_closes_shut :
    (after shutting).core.shared.state.readShutdown = false ∧
      (after (shutting ++ rejecting 3)).core.shared.state.readShutdown = true ∧
      ¬SameFlags (after shutting).core.shared.state
        (after (shutting ++ rejecting 3)).core.shared.state := by
  obtain ⟨hrejected, hfinished⟩ := rejected_of_rejecting shutting 3 rfl
    (Or.inr rfl) (by decide) rfl rfl
  exact ⟨rfl, rfl, rejected_write_closes runs_shutting rfl
    ((runs_rejecting rfl).mono fun _ _ _ => trivial) hrejected hfinished⟩

/-- **A send that finds the connection paused ends it**, although nobody else does anything. -/
theorem paused_write_closes :
    ¬∀ (w w' : Writes Bool Unit) (id : Bool),
      Runs (Writes.step .connection) (fun _ _ => True) {} w →
      w.core.shared.state.closed = false → w.calls id = none →
      Runs (Writes.step .connection) (fun _ label => Only id label = true) w w' →
      Rejected w' id → Finished w' id → SameFlags w.core.shared.state w'.core.shared.state := by
  intro h
  obtain ⟨hrejected, hfinished⟩ := rejected_of_rejecting pausing 2 rfl
    (Or.inl rfl) (by decide) rfl rfl
  have hsame := h _ _ true runs_pausing rfl rfl (runs_rejecting rfl) hrejected hfinished
  exact absurd hsame.1 (by decide)

/-! ### Write shutdown and cancellation -/

/-- The calls of `shutdown_write` whose raw shutdown completes in a step of the binding. -/
def rawShuts (w : Writes ι κ) : PyLabel ι κ → List (CoreCall ι κ)
  | .core label => shuts w.core label
  | _ => []

/-- **The condition.** No `shutdown_write` is cancelled while its raw shutdown is pending. -/
def KeepsRawShutdowns (w : Writes ι κ) : PyLabel ι κ → Prop
  | .cancel id => KeepsShutdowns w.core (.drop (.awaited id))
  | .core label => KeepsShutdowns w.core label
  | _ => True

/-- The call was cancelled after its first poll, and its guard was dropped. -/
def Cancelled (w : Writes ι κ) (id : ι) : Prop :=
  ∃ call, w.calls id = some call ∧ call.pc = .cancelled ∧ w.core.calls (.awaited id) ≠ none

/-- Where the connection is open and no `shutdown_write` is running, the raw stream is shut down if
the flag is set or a call was cancelled. -/
def ShutdownSurvives (x : Writes ι κ × List (CoreCall ι κ)) : Prop :=
  x.1.core.shared.state.closed = false →
  (∀ id call, x.1.core.calls id = some call → call.op = .shutdownWrite → ¬call.pc.Live) →
  (∃ id, Cancelled x.1 id) ∨ x.1.core.shared.state.writeShutdown = true → x.2 ≠ []

/-- A run of the binding is a run of the core, with the same raw shutdowns. -/
theorem core_runs_shuts {x : Writes ι κ × List (CoreCall ι κ)}
    (h : Runs (withHistory (Writes.step owner) rawShuts) (fun x => KeepsRawShutdowns x.1)
      ({}, []) x) :
    Runs (withHistory Core.step shuts) (fun x => KeepsShutdowns x.1) ({}, []) (x.1.core, x.2) := by
  refine h.map (fun x => (x.1.core, x.2)) fun x label y hkeeps hstep => ?_
  obtain ⟨hstep, hshown⟩ := withHistory_eq_some.mp hstep
  have hquiet : rawShuts x.1 label = [] → y.1.core = x.1.core →
      (y.1.core, y.2) = (x.1.core, x.2) := by
    intro hnone hcore
    rw [hshown, hnone, List.append_nil, hcore]
  have hcore : ∀ l, KeepsShutdowns x.1.core l → rawShuts x.1 label = shuts x.1.core l →
      x.1.core.step l = some y.1.core → ∃ l, KeepsShutdowns x.1.core l ∧
        withHistory Core.step shuts (x.1.core, x.2) l = some (y.1.core, y.2) := by
    intro l hkeeps hshuts hstep
    refine ⟨l, hkeeps, withHistory_eq_some.mpr ⟨hstep, ?_⟩⟩
    rw [hshown, hshuts]
  generalize y.1 = w' at *
  cases Writes.stepped hstep with
  | called id op _ _ => exact Or.inl (hquiet rfl rfl)
  | started id call core _ _ hs => exact Or.inr (hcore _ (keepsShutdowns_call _ _ _) rfl hs)
  | returned id call outcome _ _ _ => exact Or.inl (hquiet rfl rfl)
  | unwound id call _ _ _ => exact Or.inl (hquiet rfl rfl)
  | unguarded id call error core _ _ hs => exact Or.inr (hcore _ (keepsShutdowns_call _ _ _) rfl hs)
  | unstarted id call _ _ => exact Or.inl (hquiet rfl rfl)
  | dropped id call core _ _ hs => exact Or.inr (hcore _ hkeeps rfl hs)
  | core l core _ hs => exact Or.inr (hcore l hkeeps rfl hs)

/-- **Write shutdown survives cancellation, under the condition.** -/
theorem shutdown_survives {x : Writes ι κ × List (CoreCall ι κ)}
    (h : Runs (withHistory (Writes.step .writeHalf) rawShuts) (fun x => KeepsRawShutdowns x.1)
      ({}, []) x) : ShutdownSurvives x := by
  intro hopen hquiet hstop
  have hruns : Runs (Writes.step .writeHalf) (fun _ _ => True) {} x.1 :=
    h.of_withHistory fun _ _ _ => trivial
  have hset : x.1.core.shared.state.writeShutdown = true := by
    refine hstop.elim (fun ⟨id, call, hcall, hpc, hawaited⟩ => ?_) fun hset => hset
    -- the task that its guard has spawned has finished
    obtain ⟨outcome, hstopped⟩ := GuardInv.stopped hruns hcall (hpc ▸ trivial) hawaited
      fun task htask => hquiet _ task htask ((guardInv_of_runs hruns).task id task htask).1
    exact hstopped.resolve_left fun hclosed => absurd (hclosed.symm.trans hopen) nofun
  rcases shutsInv_of_runs (core_runs_shuts h) hset with hclosed | hshown |
    ⟨id, call, hcall, hop, hpc⟩
  · exact absurd (hclosed.symm.trans hopen) nofun
  · exact hshown
  · refine absurd ?_ (hquiet id call hcall hop)
    generalize call.pc = pc at hpc
    cases pc <;> trivial

/-- The condition, evaluated. -/
def Writes.keepsRawShutdowns (w : Writes ι κ) : PyLabel ι κ → Bool
  | .cancel id =>
    match w.core.calls (.awaited id) with
    | some ⟨.shutdownWrite, .io, _⟩ => false
    | _ => true
  | .core (.drop _) => false
  | _ => true

omit [DecidableEq ι] [DecidableEq κ] in
theorem keepsRawShutdowns_of_eq_true (label : PyLabel ι κ)
    (h : w.keepsRawShutdowns label = true) : KeepsRawShutdowns w label := by
  cases label with
  | cancel id =>
    rintro i ⟨op, pc, n⟩ ⟨⟩ hcall rfl rfl
    simp [Writes.keepsRawShutdowns, hcall] at h
  | core label =>
    rintro i call rfl
    exact absurd h nofun
  | _ => trivial

/-- The second call is cancelled while the raw write is pending, and the task of its guard shuts the
raw stream down. -/
def sendCancelled : List (PyLabel Bool Unit) :=
  let awaited (choice : Choice) : PyLabel Bool Unit := .core (.poll (.awaited true) choice)
  let spawned (choice : Choice) : PyLabel Bool Unit := .core (.poll (.spawned true) choice)
  [PyLabel.call true (.send [1, 2]), .poll true] ++ List.replicate 4 (awaited .go)
    ++ List.replicate 2 (awaited .gate) ++ List.replicate 5 (awaited .go)
    ++ [PyLabel.cancel true, .poll true]
    ++ List.replicate 3 (spawned .go) ++ List.replicate 2 (spawned .gate)
    ++ List.replicate 5 (spawned .go) ++ [spawned .complete, spawned .go]

/-- The first call is cancelled while its raw shutdown is pending, and the task of its guard finds
the flag set. -/
def shutdownCancelled : List (PyLabel Bool Unit) :=
  let awaited (choice : Choice) : PyLabel Bool Unit := .core (.poll (.awaited false) choice)
  [PyLabel.call false .shutdownWrite, .poll false] ++ List.replicate 3 (awaited .go)
    ++ List.replicate 2 (awaited .gate) ++ List.replicate 5 (awaited .go)
    ++ [PyLabel.cancel false, .poll false]
    ++ List.replicate 3 (PyLabel.core (.poll (.spawned false) .go))

/-- Where the labels lead, and the raw shutdowns that complete. -/
def afterHalf (check : Writes Bool Unit → PyLabel Bool Unit → Bool)
    (labels : List (PyLabel Bool Unit)) : Writes Bool Unit × List (CoreCall Bool Unit) :=
  (runLabels (withHistory (Writes.step .writeHalf) rawShuts) (fun x => check x.1) ({}, [])
    labels).getD ({}, [])

theorem shutdown_survives_sendCancelled :
    Cancelled (afterHalf Writes.keepsRawShutdowns sendCancelled).1 true ∧
      (afterHalf Writes.keepsRawShutdowns sendCancelled).2 = [.spawned true] ∧
      ShutdownSurvives (afterHalf Writes.keepsRawShutdowns sendCancelled) :=
  ⟨⟨_, rfl, rfl, Option.some_ne_none _⟩, rfl, shutdown_survives (runs_of_runLabels
    (fun _ label h => keepsRawShutdowns_of_eq_true label h)
    (show runLabels _ _ ({}, []) sendCancelled
      = some (afterHalf Writes.keepsRawShutdowns sendCancelled) from rfl))⟩

/-- Where the first call's task has returned. -/
def lost : Writes Bool Unit × List (CoreCall Bool Unit) :=
  afterHalf (fun _ _ => true) shutdownCancelled

theorem not_live_lost (id : CoreCall Bool Unit) (call : Call)
    (hcall : lost.1.core.calls id = some call) : ¬call.pc.Live := by
  have hawaited : lost.1.core.calls (.awaited false) = some ⟨.shutdownWrite, .dropped, 0⟩ := rfl
  have hspawned : lost.1.core.calls (.spawned false)
      = some ⟨.shutdownWrite, .done (.ok .unit), 0⟩ := rfl
  match id with
  | .awaited false => exact Option.some.inj (hawaited.symm.trans hcall) ▸ not_false
  | .spawned false => exact Option.some.inj (hspawned.symm.trans hcall) ▸ not_false
  | .awaited true => exact absurd hcall nofun
  | .spawned true => exact absurd hcall nofun
  | .other () => exact absurd hcall nofun

/-- **A cancelled `shutdown_write` is lost**: the flag is set, nobody is running, and the raw stream
is not shut down. -/
theorem shutdown_lost :
    ¬∀ x : Writes Bool Unit × List (CoreCall Bool Unit),
      Runs (withHistory (Writes.step .writeHalf) rawShuts) (fun _ _ => True) ({}, []) x →
      ShutdownSurvives x := by
  intro h
  refine h lost ?_ rfl (fun id call hcall _ => not_live_lost id call hcall) (Or.inr rfl) rfl
  exact runs_of_runLabels (fun _ _ _ => trivial)
    (show runLabels _ (fun _ _ => true) ({}, []) shutdownCancelled = some lost from rfl)

end Python

end Taunicorn
