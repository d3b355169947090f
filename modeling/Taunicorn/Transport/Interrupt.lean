import Taunicorn.Transport.Closing

/-!
# Close interrupts what is pending

Wherever a call waits it races the close token, but for two calls: `shutdown_write` waits for its
gate and for the shutdown of the raw stream with nothing else, and so does `close`. A
`shutdown_write` whose raw shutdown stays pending is therefore not interrupted; it keeps the write
gate, and the `close` that cancelled the token waits for it.

A step needs no progress of the raw stream if it is not one of its answers. Such a step leads
towards the return of the call: there is a number that every step of a call lowers, but for a raw
write that leaves a rest.

## Main results

* `Polled.rank` — a call gets nearer to its return
* `free_of_live` — a call that watches the token is free to step
* `interruptible_iff` — once the token is cancelled, whom the raw stream can block
-/

namespace Taunicorn

namespace Transport

open FifoMutex

variable {ι : Type}

/-! ### Towards the return of a call -/

def CloseStage.rank : CloseStage → ℕ
  | .closed => 7
  | .paused => 6
  | .readShutdown => 5
  | .writeShutdown => 4
  | .closeToken => 3
  | .readShutdownToken => 2
  | .stream => 1

/-- How far a call is from its return. -/
def PC.rank : PC → ℕ
  | .start => 60
  | .eof behindGate => if behindGate then 25 else 45
  | .ensure behindGate .closed => if behindGate then 24 else 44
  | .ensure behindGate .paused => if behindGate then 23 else 43
  | .ensure behindGate _ => if behindGate then 22 else 42
  | .idle behindGate .closed => if behindGate then 22 else 42
  | .idle behindGate _ => if behindGate then 21 else 41
  | .deadline => 40
  | .closing stage _ none => 30 + stage.rank
  | .gate => 29
  | .gateWait => 28
  | .store => 15
  | .cancelRead => 14
  | .streamClosed => 12
  | .stream => 11
  | .io => 10
  | .closing stage _ (some _) => 2 + stage.rank
  | .storeEof => 2
  | .unwind _ => 1
  | .done _ => 0
  | .dropped => 0
  | .panicked => 0

/-- The answers that need no progress of the raw stream, and no deadline. -/
def Choice.isLocal : Choice → Bool
  | .go => true
  | .closeToken => true
  | .readShutdownToken => true
  | .now _ => true
  | .gate => true
  | _ => false

def Core.rank (core : Core ι) (id : ι) : ℕ :=
  match core.calls id with
  | none => 0
  | some call => call.pc.rank

/-- A call has a step towards its return that needs no progress of the raw stream. -/
def Free [DecidableEq ι] (core : Core ι) (id : ι) : Prop :=
  ∃ choice core', choice.isLocal = true ∧ core.step (.poll id choice) = some core' ∧
    core'.rank id < core.rank id

/-- **Nobody is blocked by the raw stream alone.** Each pending call is free to step, or waits for
a gate whose holder is; but for a `close` that waits for its own raw shutdown. -/
def Interruptible [DecidableEq ι] (core : Core ι) : Prop :=
  ∀ id call, core.calls id = some call → call.pc.Live → (call.op = .close → call.pc ≠ .io) →
    Free core id ∨ (call.pc = .gateWait ∧
      ∃ j, (core.shared.gate call.op).holder = some j ∧ Free core j)

/-- A `shutdown_write` waits for its raw shutdown, or for the gate behind a `close` that does. -/
def StuckShutdown (core : Core ι) : Prop :=
  ∃ id call, core.calls id = some call ∧ call.op = .shutdownWrite ∧
    (call.pc = .io ∨ call.pc = .gateWait ∧
      ∃ j c, core.calls j = some c ∧ c.op = .close ∧ c.pc = .io)

variable {sh : Shared ι} {id : ι} {op : Op} {pc pc' : PC} {w w' : ℕ} {effect : Effect}
  {core core' : Core ι} {call call' : Call}

/-- **A call gets nearer to its return**, but for a raw write that leaves a rest. -/
theorem Polled.rank (h : Polled sh id op pc w effect pc' w') :
    pc'.rank < pc.rank ∨ (pc = .io ∧ pc' = .io) := by
  have hfinish : ∀ b outcome, (PC.finish b outcome).rank ≤ 1 := by
    intro b outcome
    cases b <;> simp [PC.finish, PC.rank]
  cases h with
  | entered =>
    left
    rcases op.enter_cases with ⟨v, h, -⟩ | ⟨h, -⟩ | h | ⟨h, -⟩ | ⟨h, -⟩ <;> rw [h] <;>
      simp [PC.rank, CloseStage.rank]
  | eof b _ => exact Or.inl ((hfinish b _).trans_lt (by cases b <;> decide))
  | notEof b _ => exact Or.inl (by cases b <;> decide)
  | refused b flag _ =>
    exact Or.inl ((hfinish b _).trans_lt (by cases b <;> cases flag <;> decide))
  | passed b flag _ =>
    left
    cases b <;> cases flag <;>
      first | decide | (cases op <;> simp [Op.afterEnsure, Op.afterChecks, PC.rank, Op.flag])
  | idle b flag _ => exact Or.inl ((hfinish b _).trans_lt (by cases b <;> cases flag <;> decide))
  | busy b flag _ =>
    left
    cases op <;> cases flag <;> cases b <;> simp [Op.afterIdle, PC.rank, Op.flag]
  | granted _ => left; cases op <;> simp [Op.enterGate, PC.rank]
  | stored hstored =>
    left
    cases Op.stores_of_stored hstored <;> simp [PC.rank]
  | accepted n _ _ _ => exact Or.inr ⟨rfl, rfl⟩
  | closing stage first error =>
    left
    cases error with
    | some e => cases stage <;> cases first <;> simp [pollClosing, PC.rank, CloseStage.rank]
    | none =>
      cases hstream : sh.stream <;> cases stage <;> cases first <;>
        simp [pollClosing, PC.rank, CloseStage.rank, hstream]
  | _ => left; simp [PC.rank, CloseStage.rank]

/-- The operations with a store are the only ones that come to it, and `send_timeout` is the only
one with a deadline. -/
def Op.Idles (op : Op) : PC → Prop
  | .deadline => ∃ data timeout, op = .sendTimeout data timeout
  | .idle _ _ => op.stored ≠ none
  | .store => op.stored ≠ none
  | _ => True

theorem Polled.idles (h : Polled sh id op pc w effect pc' w') (hidles : op.Idles pc) :
    op.Idles pc' := by
  have hfinish : ∀ b outcome, op.Idles (.finish b outcome) := by
    intro b outcome
    cases b <;> trivial
  cases h with
  | entered => cases op <;> simp only [Op.enter] <;> (try split) <;> first | trivial | rintro ⟨⟩
  | eof b _ => exact hfinish b _
  | refused b flag _ => exact hfinish b _
  | passed b flag _ =>
    rcases op.afterEnsure_cases b flag with ⟨next, h⟩ | ⟨h, -⟩ | ⟨-, ⟨h, hop⟩ | h⟩ <;>
      simp_all [Op.Idles]
  | idle b flag _ => exact hfinish b _
  | busy b flag _ =>
    cases op <;> cases flag <;> cases b <;> first | exact absurd rfl hidles | trivial
  | granted _ => cases op <;> first | trivial | rintro ⟨⟩
  | stored hstored =>
    cases Op.stores_of_stored hstored <;> trivial
  | closing stage first error =>
    rcases pollClosing_cases sh stage first error with ⟨stage', first', -, h⟩ | ⟨e, -, h⟩ |
      ⟨-, h | h⟩ <;> rw [h] <;> trivial
  | _ => trivial

/-! ### Who is free to step -/

variable [DecidableEq ι]

theorem free_of_poll {choice : Choice} (hcall : core.calls id = some call)
    (hlocal : choice.isLocal = true)
    (hpoll : call.poll core.shared id choice = some (call', effect))
    (hne : call.pc = .io → call'.pc ≠ .io) : Free core id := by
  have hstep : core.step (.poll id choice) = some
      { shared := core.shared.perform id call.op effect
        calls := Function.update core.calls id (some call') } := by
    simp only [Core.step, hcall, hpoll, Option.map_some]
  refine ⟨choice, _, hlocal, hstep, ?_⟩
  simp only [Core.rank, Function.update_self, hcall]
  exact (polled_of_poll hpoll).2.rank.resolve_right fun ⟨hpc, hpc'⟩ => hne hpc hpc'

/-- A call whose next step has one outcome, or that watches the cancelled token, is free. -/
theorem free_of_live (hcall : core.calls id = some call) (hlive : call.pc.Live)
    (hidles : call.op.Idles call.pc) (htoken : core.shared.closeToken = true)
    (hwait : call.pc = .gateWait →
      call.op.watchesClose = true ∨ (core.shared.gate call.op).holder = some id)
    (hio : call.pc = .io → call.op.watchesClose = true) : Free core id := by
  obtain ⟨op, pc, w⟩ := call
  dsimp only at hlive hidles hwait hio
  cases pc with
  | deadline =>
    obtain ⟨data, timeout, rfl⟩ := hidles
    exact free_of_poll hcall (show Choice.isLocal (.now default) = true from rfl) rfl nofun
  | gate => exact free_of_poll hcall (show Choice.isLocal .gate = true from rfl) rfl nofun
  | gateWait =>
    rcases hwait rfl with hwatches | hholder
    · have hpoll : Call.poll core.shared id ⟨op, .gateWait, w⟩ .closeToken = some
          (⟨op, .done (.error (.msg "socket connection was closed")), w⟩, .leave) := by
        simp [Call.poll, Op.giveUp, hwatches, htoken]
      exact free_of_poll hcall rfl hpoll nofun
    · have hpoll : Call.poll core.shared id ⟨op, .gateWait, w⟩ .gate = some
          (⟨op, op.enterGate, w⟩, .none) := if_pos hholder
      exact free_of_poll hcall rfl hpoll nofun
  | store =>
    obtain ⟨⟨pc, effect⟩, hstored⟩ := Option.ne_none_iff_exists'.mp hidles
    have hpoll : Call.poll core.shared id ⟨op, .store, w⟩ .go = some (⟨op, pc, w⟩, effect) := by
      simp only [Call.poll, hstored, Option.map_some]
    exact free_of_poll hcall rfl hpoll nofun
  | io =>
    have hwatches := hio rfl
    have hpoll : ∃ e, Call.poll core.shared id ⟨op, .io, w⟩ .closeToken = some
        (⟨op, .unwind (.error e), w⟩, .none) := by
      cases op <;> simp [Call.poll, Op.interrupted, Op.giveUp, hwatches, htoken]
    obtain ⟨e, hpoll⟩ := hpoll
    exact free_of_poll hcall rfl hpoll fun _ => nofun
  | done outcome => exact hlive.elim
  | dropped => exact hlive.elim
  | panicked => exact hlive.elim
  | _ => exact free_of_poll hcall (show Choice.isLocal .go = true from rfl) rfl nofun

/-- Nothing but the raw stream moves a call that waits for its raw shutdown. -/
theorem not_free_of_io (hcall : core.calls id = some call) (hop : call.op.watchesClose = false)
    (hpc : call.pc = .io) : ¬Free core id := by
  rintro ⟨choice, core', hlocal, hstep, -⟩
  obtain ⟨op, pc, w⟩ := call
  dsimp only at hop hpc
  subst hpc
  simp only [Core.step, hcall, Option.map_eq_some_iff] at hstep
  obtain ⟨⟨call', effect⟩, hpoll, -⟩ := hstep
  cases op with
  | shutdownWrite =>
    cases choice <;> simp [Call.poll, Op.interrupted, Op.giveUp, Op.reads, hop, pollIo,
      Choice.isLocal] at hpoll hlocal
  | close =>
    cases choice <;> simp [Call.poll, Op.interrupted, Op.giveUp, Op.reads, hop, pollIo,
      Choice.isLocal] at hpoll hlocal
  | _ => cases hop

/-- Nor does anything but the gate move a `shutdown_write` in its queue. -/
theorem not_free_of_gateWait (hcall : core.calls id = some call)
    (hop : call.op = .shutdownWrite) (hpc : call.pc = .gateWait)
    (hholder : core.shared.writeGate.holder ≠ some id) : ¬Free core id := by
  rintro ⟨choice, core', -, hstep, -⟩
  obtain ⟨op, pc, w⟩ := call
  dsimp only at hop hpc
  subst hop hpc
  simp only [Core.step, hcall, Option.map_eq_some_iff] at hstep
  obtain ⟨⟨call', effect⟩, hpoll, -⟩ := hstep
  cases choice <;> simp [Call.poll, Op.giveUp, Op.watchesClose, Op.reads, Shared.gate, hholder]
    at hpoll

/-! ### Whom the raw stream can block -/

omit [DecidableEq ι] in
theorem Op.watchesClose_eq_false (h : op.watchesClose = false) :
    op = .shutdownWrite ∨ op = .close := by
  cases op <;> first | exact Or.inl rfl | exact Or.inr rfl | exact absurd h nofun

omit [DecidableEq ι] in
/-- Somebody in the queue of the write gate has a call, which waits or holds. -/
theorem WireInv.call_of_holder {j : ι} (hinv : WireInv core)
    (hholder : core.shared.writeGate.holder = some j) :
    ∃ c, core.calls j = some c ∧ c.pc.Live := by
  have hat := hinv.at_place j
  have hplace := hat.of_mem_queue (mem_queue_of_holder hholder)
  cases hcall : core.calls j with
  | none => simp [Core.place, hcall] at hplace
  | some c =>
    refine ⟨c, rfl, ?_⟩
    rw [Core.place_eq hcall] at hplace
    unfold Op.place at hplace
    cases hpc : c.pc <;> rw [hpc] at hplace <;>
      first | trivial | (cases hreads : c.op.reads <;> simp [hreads] at hplace)

omit [DecidableEq ι] in
/-- Only one `close` gets as far as the gate. -/
theorem CloseInv.unique {answers : List (ι × Bool)} {i j : ι} {c : Call}
    (hinv : CloseInv core answers) (hi : core.calls i = some call) (hj : core.calls j = some c)
    (hopi : call.op = .close) (hopj : c.op = .close) (hpci : call.pc = .gateWait)
    (hpcj : c.pc = .io) : i = j := by
  have hbi := hinv.behind i call hi
  have hbj := hinv.behind j c hj
  rw [hpci] at hbi
  rw [hpcj] at hbj
  have hmem : ∀ k, (k, true) ∈ answers → (k, true) ∈ answers.filter Prod.snd :=
    fun k hk => List.mem_filter.mpr ⟨hk, rfl⟩
  have hmi := hmem i (hbi hopi)
  have hmj := hmem j (hbj hopj)
  cases hclosed : core.shared.state.closed with
  | false =>
    rw [(hinv.opened hclosed).1] at hmi
    exact absurd hmi List.not_mem_nil
  | true =>
    obtain ⟨k, -, hanswers, -⟩ := hinv.closed hclosed
    rw [hanswers, List.mem_singleton] at hmi hmj
    exact (congrArg Prod.fst hmi).trans (congrArg Prod.fst hmj).symm

/-- **Whom the raw stream can block once the close token is cancelled**: a `shutdown_write` at its
raw shutdown, and one that waits for the gate while a `close` is at its own; and nobody else. -/
theorem interruptible_iff {allowed : Core ι → Label ι → Prop} (h : Runs Core.step allowed {} core)
    (htoken : core.shared.closeToken = true) : Interruptible core ↔ ¬StuckShutdown core := by
  obtain ⟨answers, hruns⟩ :
      ∃ answers,
        Runs (withHistory Core.step swaps) (fun x => allowed x.1) ({}, []) (core, answers) :=
    h.exists_history []
  have hinv := closeInv_of_runs hruns
  have hidles := forall_calls_of_runs Op.Idles h (fun _ => trivial) (fun _ => trivial)
    fun hpolled => hpolled.idles
  constructor
  · rintro hall ⟨id, call, hcall, hop, hpc | ⟨hpc, j, c, hc, hcop, hcpc⟩⟩
    · -- at its raw shutdown
      rcases hall id call hcall (by rw [hpc]; trivial) (by simp [hop]) with hfree | ⟨hwait, -⟩
      · exact not_free_of_io hcall (by rw [hop]; rfl) hpc hfree
      · exact absurd (hpc.symm.trans hwait) nofun
    · -- behind a `close` at its own, which holds the gate
      have hholder : core.shared.writeGate.holder = some j := by
        have hat := hinv.wire.at_place j
        rw [Core.place_eq hc, hcop, hcpc] at hat
        exact hat
      have hgate : core.shared.gate call.op = core.shared.writeGate := by
        rw [hop]
        rfl
      have hne : core.shared.writeGate.holder ≠ some id := by
        rw [hholder]
        rintro heq
        obtain rfl := Option.some.inj heq
        obtain rfl := Option.some.inj (hcall.symm.trans hc)
        exact absurd (hpc.symm.trans hcpc) nofun
      rcases hall id call hcall (by rw [hpc]; trivial) (by simp [hop]) with
        hfree | ⟨-, k, hk, hfree⟩
      · exact not_free_of_gateWait hcall hop hpc hne hfree
      · rw [hgate, hholder] at hk
        obtain rfl := Option.some.inj hk
        exact not_free_of_io hc (by rw [hcop]; rfl) hcpc hfree
  · intro hstuck id call hcall hlive hclose
    have hio : call.pc = .io → call.op.watchesClose = true := by
      intro hpc
      by_contra hwatches
      rcases Op.watchesClose_eq_false (by simpa using hwatches) with hop | hop
      · exact hstuck ⟨id, call, hcall, hop, Or.inl hpc⟩
      · exact hclose hop hpc
    by_cases hwait : call.pc = .gateWait →
        call.op.watchesClose = true ∨ (core.shared.gate call.op).holder = some id
    · exact Or.inl (free_of_live hcall hlive (hidles id call hcall) htoken hwait hio)
    · -- it waits for the write gate, and for nothing else
      obtain ⟨hpc, hwait⟩ := Classical.not_imp.mp hwait
      obtain ⟨hwatches, hholder⟩ := not_or.mp hwait
      have hop := Op.watchesClose_eq_false (by simpa using hwatches)
      have hgate : core.shared.gate call.op = core.shared.writeGate := by
        rcases hop with hop | hop <;> rw [hop] <;> rfl
      have hqueue : id ∈ core.shared.writeGate.queue := by
        have hat := hinv.wire.at_place id
        rw [Core.place_eq hcall, hpc] at hat
        rcases hop with hop | hop <;> rw [hop] at hat <;> exact hat
      obtain ⟨j, hj⟩ := Option.ne_none_iff_exists'.mp
        fun hnone => List.ne_nil_of_mem hqueue (holder_eq_none.mp hnone)
      rw [hgate] at hholder ⊢
      refine Or.inr ⟨hpc, j, hj, ?_⟩
      obtain ⟨c, hc, hclive⟩ := hinv.wire.call_of_holder hj
      refine free_of_live hc hclive (hidles j c hc) htoken (fun _ => ?_) fun hcpc => ?_
      · cases hcw : c.op.watchesClose with
        | true => exact Or.inl rfl
        | false =>
          right
          rcases Op.watchesClose_eq_false hcw with hcop | hcop <;> rw [hcop] <;> exact hj
      · by_contra hcw
        rcases Op.watchesClose_eq_false (by simpa using hcw) with hcop | hcop
        · exact hstuck ⟨j, c, hc, hcop, Or.inl hcpc⟩
        · rcases hop with hop | hop
          · exact hstuck ⟨id, call, hcall, hop, Or.inr ⟨hpc, j, c, hc, hcop, hcpc⟩⟩
          · obtain rfl := hinv.unique hcall hc hop hcop hpc hcpc
            exact hholder hj

/-! A `shutdown_write` waits for its raw shutdown when the connection is closed. -/

def stalledRun : List (Label ℕ) :=
  [Label.call 0 .shutdownWrite, .call 1 .close] ++ List.replicate 3 (Label.poll 0 .go) ++
    [Label.poll 0 .gate, .poll 0 .gate] ++ List.replicate 5 (Label.poll 0 .go) ++
    List.replicate 8 (Label.poll 1 .go) ++ [Label.poll 1 .gate]

def stalledCore : Core ℕ := (runLabels Core.step (fun _ _ => true) {} stalledRun).getD {}

theorem runs_stalledCore : Runs Core.step (fun _ _ => True) {} stalledCore :=
  runs_of_runLabels (fun _ _ _ => trivial)
    (show runLabels _ (fun _ _ => true) {} stalledRun = some stalledCore from rfl)

/-- Neither of the two calls is free, and the `close` waits for the gate. -/
theorem close_stalled : Runs Core.step (fun _ _ => True) {} stalledCore ∧
    stalledCore.shared.closeToken = true ∧ ¬Interruptible stalledCore := by
  refine ⟨runs_stalledCore, rfl, fun hall => ?_⟩
  rcases hall 0 _ rfl trivial nofun with hfree | ⟨hwait, -⟩
  · exact not_free_of_io rfl rfl rfl hfree
  · exact absurd hwait nofun

/-! With a send in its place, the `close` gets the gate. -/

def interruptedRun : List (Label ℕ) :=
  [Label.call 0 (.send [1]), .call 1 .close] ++ List.replicate 4 (Label.poll 0 .go) ++
    [Label.poll 0 .gate, .poll 0 .gate] ++ List.replicate 5 (Label.poll 0 .go) ++
    List.replicate 8 (Label.poll 1 .go) ++ [Label.poll 1 .gate]

def interruptedCore : Core ℕ :=
  (runLabels Core.step (fun _ _ => true) {} interruptedRun).getD {}

theorem runs_interruptedCore : Runs Core.step (fun _ _ => True) {} interruptedCore :=
  runs_of_runLabels (fun _ _ _ => trivial)
    (show runLabels _ (fun _ _ => true) {} interruptedRun = some interruptedCore from rfl)

theorem interruptible_iff_interrupted : Interruptible interruptedCore := by
  refine (interruptible_iff runs_interruptedCore rfl).mpr ?_
  rintro ⟨id, call, hcall, hop, -⟩
  rcases id with _ | _ | id
  · obtain rfl := Option.some.inj hcall
    exact absurd hop nofun
  · obtain rfl := Option.some.inj hcall
    exact absurd hop nofun
  · exact absurd hcall nofun

end Transport

end Taunicorn
