import Mathlib.Algebra.Order.BigOperators.Group.List
import Taunicorn.Transport.Closing

/-!
# Write shutdown

`shutdown_write` asks for the write gate before it stores the flag, and `close` asks for it behind
all of its stores. Whoever invokes the shutdown of the raw stream therefore holds the gate with the
flag set, and no writing call is past its own check of the flag: nothing is written any more.

The other half is about those who came first. The gate is fair, so a send that has asked for it
before a `shutdown_write` has left it when the latter stores the flag; and unless the connection
was paused, closed or failed in the meantime, it has handed over its whole buffer.

## Main results

* `Shut.wire_of_runs` — nothing is written behind a shutdown
* `Refusing.returns` — a writing call that starts behind the flag is refused
* `Served.step` — a send that waits in a calm connection gets its turn
* `write_shutdown_after_sends` — all of it
-/

namespace Taunicorn

namespace Transport

open FifoMutex

variable {ι : Type}

/-! ### Behind a shutdown -/

/-- Where a writing call stands once it has found the write direction open behind the gate. -/
def Checked : PC → Prop
  | .streamClosed => True
  | .stream => True
  | .io => True
  | _ => False

/-- The write direction is shut down, and no writing call has found it open. -/
structure Shut (core : Core ι) : Prop where
  flag : core.shared.state.writeShutdown = true
  checked : ∀ id call, core.calls id = some call → call.op.buffer ≠ [] → ¬Checked call.pc

/-- What is known of a call of `shutdown_write`, where it stands. -/
def ShutBehind (sh : Shared ι) : PC → Prop
  | .eof _ => False
  | .ensure _ _ => False
  | .idle _ flag => flag = .closed ∨ flag = .writeShutdown
  | .streamClosed => sh.state.writeShutdown = true
  | .stream => sh.state.writeShutdown = true
  | .io => sh.state.writeShutdown = true
  | _ => True

/-- **The invariant of write shutdown.** -/
structure ShutInv (core : Core ι) (answers : List (ι × Bool)) : Prop where
  close : CloseInv core answers
  behind : ∀ id call, core.calls id = some call → call.op = .shutdownWrite →
    ShutBehind core.shared call.pc

variable {sh sh' : Shared ι} {id i j : ι} {op : Op} {pc pc' : PC} {w w' : ℕ} {effect : Effect}
  {core core' : Core ι} {call call' : Call} {label : Label ι} {answers : List (ι × Bool)}

/-- **The only way past the check** is to find the write direction open. -/
theorem Polled.checked (h : Polled sh id op pc w effect pc' w') (htyped : op.Typed pc)
    (hbuffer : op.buffer ≠ []) (hchecked : Checked pc') :
    Checked pc ∨ sh.state.writeShutdown = false := by
  have hfinish : ∀ {P : Prop} {b : Bool} {outcome : Outcome}, Checked (.finish b outcome) → P := by
    intro P b outcome h
    cases b <;> exact False.elim h
  cases h with
  | entered =>
    rcases op.enter_cases with ⟨v, h, -⟩ | ⟨h, -⟩ | h | ⟨h, -⟩ | ⟨h, -⟩ <;> rw [h] at hchecked
    all_goals exact False.elim hchecked
  | eof b _ => exact hfinish hchecked
  | refused b flag _ => exact hfinish hchecked
  | passed b flag hclear =>
    have hown : op.flag = .writeShutdown := by
      cases op <;> first | rfl | exact absurd rfl hbuffer
    cases b with
    | false =>
      exfalso
      rcases op.afterChecks_cases with ⟨h, -⟩ | h <;>
        cases flag <;> simp [Op.afterEnsure, Checked, h] at hchecked
    | true =>
      rcases htyped with rfl | rfl | rfl
      · exact False.elim hchecked
      · exact False.elim hchecked
      · rw [hown] at hclear
        exact Or.inr hclear
  | idle b flag _ => exact hfinish hchecked
  | busy b flag _ => exact absurd htyped.1 hbuffer
  | granted _ =>
    exfalso
    cases op <;> first | exact absurd rfl hbuffer | exact hchecked
  | stored _ => exact absurd htyped hbuffer
  | openSeen _ => exact Or.inl trivial
  | stream _ => exact Or.inl trivial
  | accepted n _ _ _ => exact Or.inl trivial
  | closing stage first error =>
    rcases pollClosing_cases sh stage first error with ⟨stage', first', -, h⟩ | ⟨e, -, h⟩ |
      ⟨-, h | h⟩ <;> rw [h] at hchecked <;> exact False.elim hchecked
  | _ => exact False.elim hchecked

theorem Polled.shutBehind [DecidableEq ι] (h : Polled sh id .shutdownWrite pc w effect pc' w')
    (hbehind : ShutBehind sh pc) :
    ShutBehind (sh.perform id .shutdownWrite effect) pc' := by
  have hfinish : ∀ {sh : Shared ι} b outcome, ShutBehind sh (.finish b outcome) := by
    intro sh b outcome
    cases b <;> trivial
  cases h with
  | entered => exact Or.inl rfl
  | eof b _ => exact hfinish b _
  | notEof b _ => exact hbehind.elim
  | refused b flag _ => exact hfinish b _
  | passed b flag _ => exact hbehind.elim
  | idle b flag _ => exact hfinish b _
  | busy b flag _ =>
    rcases hbehind with rfl | rfl
    · exact Or.inr rfl
    · cases b <;> trivial
  | granted _ => exact Or.inl rfl
  | stored hstored =>
    obtain ⟨rfl, rfl⟩ := Prod.mk.inj (Option.some.inj hstored)
    exact rfl
  | openSeen _ => exact hbehind
  | stream _ => exact hbehind
  | accepted n hwhole _ _ => exact absurd hwhole nofun
  | closing stage first error =>
    rcases pollClosing_cases sh stage first error with ⟨stage', first', -, h⟩ | ⟨e, -, h⟩ |
      ⟨-, h | h⟩ <;> rw [h] <;> trivial
  | _ => trivial

theorem ShutBehind.mono (h : ShutBehind sh pc)
    (hflag : sh.state.writeShutdown = true → sh'.state.writeShutdown = true) :
    ShutBehind sh' pc := by
  cases pc with
  | streamClosed => exact hflag h
  | stream => exact hflag h
  | io => exact hflag h
  | _ => exact h

variable [DecidableEq ι]

theorem ShutInv.step (hinv : ShutInv core answers) (h : core.step label = some core') :
    ShutInv core' (answers ++ swaps core label) := by
  refine ⟨hinv.close.step h, fun i c hc hop => ?_⟩
  have hflag := load_of_step .writeShutdown rfl h
  obtain ⟨id, call', hstepped⟩ := Core.stepped h
  obtain ⟨hcalls, -⟩ := hstepped.calls
  rw [hcalls] at hc
  by_cases hi : i = id
  · subst hi
    rw [Function.update_self, Option.some.injEq] at hc
    subst hc
    cases hstepped with
    | called id op hnone => trivial
    | dropped id call effect hcall hdrop => trivial
    | polled id choice call call' effect hcall hop' hpolled =>
      have hbehind := hinv.behind i call hcall (hop' ▸ hop)
      rw [← hop', hop] at hpolled
      have hnew := hpolled.shutBehind hbehind
      rwa [← hop, hop'] at hnew
  · rw [Function.update_of_ne hi] at hc
    exact (hinv.behind i c hc hop).mono hflag

theorem shutInv_of_runs {allowed : Core ι → Label ι → Prop} (h : Runs Core.step allowed {} core) :
    ∃ answers, ShutInv core answers := by
  refine h.invariant (fun core => ∃ answers, ShutInv core answers)
    ⟨[], closeInv_init, fun _ _ h => absurd h nofun⟩ ?_
  rintro core label core' ⟨answers, hinv⟩ - hstep
  exact ⟨_, hinv.step hstep⟩

/-- **Nothing is written behind a shutdown.** -/
theorem Shut.step (hshut : Shut core) (hinv : WireInv core) (h : core.step label = some core') :
    Shut core' ∧ core'.shared.wire = core.shared.wire := by
  obtain ⟨id, call', hstepped, hchange⟩ := hinv.change h
  refine ⟨⟨load_of_step .writeShutdown rfl h hshut.flag, fun i c hc hbuffer => ?_⟩, ?_⟩
  · by_cases hi : i = id
    · subst hi
      obtain rfl := Option.some.inj (hchange.calls_self.symm.trans hc)
      cases hstepped with
      | called id op hnone => exact not_false
      | dropped id call effect hcall hdrop => exact not_false
      | polled id choice call call' effect hcall hop hpolled =>
        intro hchecked
        rw [hop] at hbuffer
        rcases hpolled.checked (hinv.typed i call hcall) hbuffer hchecked with hold | hopen
        · exact hshut.checked i call hcall hbuffer hold
        · exact absurd (hshut.flag.symm.trans hopen) nofun
    · exact hshut.checked i c (hchange.calls_of_ne hi ▸ hc) hbuffer
  · obtain ⟨bytes, hwire, -, hio⟩ := hchange.wire
    have hempty : bytes = [] := by
      by_contra hne
      obtain ⟨c, hc, hbuffer, hpc⟩ := hio hne
      refine hshut.checked id c hc hbuffer ?_
      rw [hpc]
      trivial
    rw [hwire, hempty, List.append_nil]

theorem Shut.wire_of_runs {allowed : Core ι → Label ι → Prop} (hshut : Shut core)
    (hinv : WireInv core) (h : Runs Core.step allowed core core') :
    core'.shared.wire = core.shared.wire := by
  have hkeeps := h.invariant
    (fun c => WireInv c ∧ Shut c ∧ c.shared.wire = core.shared.wire) ⟨hinv, hshut, rfl⟩ ?_
  · exact hkeeps.2.2
  · rintro c label c' ⟨hinv, hshut, hwire⟩ - hstep
    obtain ⟨hshut', hwire'⟩ := hshut.step hinv hstep
    exact ⟨hinv.step hstep, hshut', hwire'.trans hwire⟩

omit [DecidableEq ι] in
/-- Whoever invokes the shutdown of the raw stream holds the gate, with the flag set. -/
theorem ShutInv.shut (hinv : ShutInv core answers) (hcall : core.calls id = some call)
    (hop : call.op = .shutdownWrite ∨ call.op = .close) (hpc : call.pc = .io) : Shut core := by
  have hbuffer : call.op.buffer = [] := by
    rcases hop with h | h <;> rw [h] <;> rfl
  have hholder : core.shared.writeGate.holder = some id := by
    have hat := hinv.close.wire.at_place id
    rw [Core.place_eq hcall, hpc] at hat
    rcases hop with h | h <;> rw [h] at hat <;> exact hat
  refine ⟨?_, fun i c hc hne hchecked => ?_⟩
  · rcases hop with h | h
    · have hbehind := hinv.behind id call hcall h
      rwa [hpc] at hbehind
    · have hbehind := hinv.close.behind id call hcall
      rw [hpc] at hbehind
      have hmem : (id, true) ∈ answers.filter Prod.snd := List.mem_filter.mpr ⟨hbehind h, rfl⟩
      have hclosed : core.shared.state.closed = true := by
        by_contra hopen
        rw [(hinv.close.opened (by simpa using hopen)).1] at hmem
        exact absurd hmem List.not_mem_nil
      obtain ⟨i, c, hanswers, hc, hprogress⟩ := hinv.close.closed hclosed
      rw [hanswers, List.mem_singleton] at hmem
      obtain rfl : id = i := congrArg Prod.fst hmem
      obtain rfl := Option.some.inj (hcall.symm.trans hc)
      rw [hpc] at hprogress
      exact hprogress.2.2.2.2
  · -- the other one would hold the gate too
    have hat := hinv.close.wire.at_place i
    have hplace : c.op.place c.pc = .holding := by
      have hreads := Call.not_reads hne
      unfold Op.place
      cases hpc : c.pc <;> rw [hpc] at hchecked <;> simp_all [Checked]
    rw [Core.place_eq hc, hplace] at hat
    obtain rfl : id = i := Option.some.inj (hholder.symm.trans hat)
    obtain rfl := Option.some.inj (hcall.symm.trans hc)
    exact hne hbuffer

/-! ### A send that starts behind the flag -/

/-- Polled alone, with nothing to wait for, a call returns. -/
inductive ReturnsAlone : Core ι → ι → Outcome → Prop
  | returned {core : Core ι} {id : ι} {call : Call} {outcome : Outcome} :
      core.calls id = some call → call.pc = .done outcome → ReturnsAlone core id outcome
  | polled {core core' : Core ι} {id : ι} {outcome : Outcome} :
      core.step (.poll id .go) = some core' → ReturnsAlone core' id outcome →
      ReturnsAlone core id outcome

/-- A writing call that will not get as far as the gate. -/
def Refusing (call : Call) : Prop :=
  call.op.buffer ≠ [] ∧ call.written = 0 ∧
    (call.pc = .start ∨ call.pc = .ensure false .closed ∨ call.pc = .ensure false .paused ∨
      call.pc = .ensure false .writeShutdown ∨ ∃ e, call.pc = .done (.error e))

/-- How many steps such a call has to go. -/
def refusal : PC → ℕ
  | .start => 4
  | .ensure _ .closed => 3
  | .ensure _ .paused => 2
  | .ensure _ _ => 1
  | _ => 0

omit [DecidableEq ι] in
theorem Op.enter_of_buffer (h : op.buffer ≠ []) : op.enter = .ensure false .closed := by
  cases op with
  | writeOnce data => exact if_neg fun hempty => h (List.isEmpty_iff.mp hempty)
  | send data => exact if_neg fun hempty => h (List.isEmpty_iff.mp hempty)
  | sendTimeout data => exact if_neg fun hempty => h (List.isEmpty_iff.mp hempty)
  | _ => exact absurd rfl h

omit [DecidableEq ι] in
theorem Op.flag_of_buffer (h : op.buffer ≠ []) : op.flag = .writeShutdown := by
  cases op with
  | writeOnce data => rfl
  | send data => rfl
  | sendTimeout data => rfl
  | _ => exact absurd rfl h

omit [DecidableEq ι] in
/-- Behind the flag such a call stays ahead of the gate. -/
theorem Refusing.polled (h : Refusing call)
    (hpolled : Polled sh id call.op call.pc call.written effect call'.pc call'.written)
    (hop : call'.op = call.op) (hflag : sh.state.writeShutdown = true) : Refusing call' := by
  obtain ⟨hbuffer, hwritten, hpc⟩ := h
  obtain ⟨op, pc, w⟩ := call
  obtain ⟨op', pc', w'⟩ := call'
  dsimp only at hbuffer hwritten hpc hpolled hop
  subst hop
  have hrefused : ∀ {w : ℕ} (e : Error), w = 0 → Refusing ⟨op', .done (.error e), w⟩ := by
    intro w e hw
    exact ⟨hbuffer, hw, Or.inr (Or.inr (Or.inr (Or.inr ⟨e, rfl⟩)))⟩
  rcases hpc with rfl | rfl | rfl | rfl | ⟨e, rfl⟩
  · cases hpolled with
    | entered => exact ⟨hbuffer, hwritten, Or.inr (Or.inl (Op.enter_of_buffer hbuffer))⟩
  · cases hpolled with
    | refused _ _ _ => exact hrefused _ hwritten
    | passed _ _ _ => exact ⟨hbuffer, hwritten, Or.inr (Or.inr (Or.inl rfl))⟩
  · cases hpolled with
    | refused _ _ _ => exact hrefused _ hwritten
    | passed _ _ _ =>
      refine ⟨hbuffer, hwritten, Or.inr (Or.inr (Or.inr (Or.inl ?_)))⟩
      change PC.ensure false op'.flag = _
      rw [Op.flag_of_buffer hbuffer]
  · cases hpolled with
    | refused _ _ _ => exact hrefused _ hwritten
    | passed _ _ hclear => exact absurd (hflag.symm.trans hclear) nofun
  · exact absurd hpolled.live not_false

/-- A step of a call that changes nothing but its program counter. -/
theorem Core.step_quiet (hcall : core.calls id = some call)
    (hpoll : call.poll core.shared id .go = some ({ call with pc }, .none)) :
    core.step (.poll id .go) = some
      { core with calls := Function.update core.calls id (some { call with pc }) } := by
  simp only [Core.step, hcall, hpoll, Option.map_some]
  rfl

/-- Behind the flag such a call steps on when it is polled, and changes nothing else. -/
theorem Refusing.next (h : Refusing call) (hflag : sh.state.writeShutdown = true) (id : ι) :
    (∃ e, call.pc = .done (.error e)) ∨
      ∃ pc, call.poll sh id .go = some ({ call with pc }, .none) ∧
        refusal pc < refusal call.pc := by
  obtain ⟨hbuffer, -, hpc⟩ := h
  obtain ⟨op, pc, w⟩ := call
  dsimp only at hbuffer hpc
  rcases hpc with rfl | rfl | rfl | rfl | ⟨e, rfl⟩
  · refine Or.inr ⟨_, rfl, ?_⟩
    rw [Op.enter_of_buffer hbuffer]
    exact Nat.lt_succ_self 3
  · refine Or.inr ⟨_, rfl, ?_⟩
    split <;> simp [refusal, PC.finish, Op.afterEnsure]
  · refine Or.inr ⟨_, rfl, ?_⟩
    rw [Op.afterEnsure, Op.flag_of_buffer hbuffer]
    split <;> simp [refusal, PC.finish]
  · refine Or.inr ⟨_, rfl, ?_⟩
    rw [if_pos (show sh.state.load .writeShutdown = true from hflag)]
    exact Nat.lt_succ_self 0
  · exact Or.inl ⟨e, rfl⟩

/-- **A writing call that starts behind the flag is refused.** -/
theorem Refusing.returns (h : Refusing call) (hcall : core.calls id = some call)
    (hflag : core.shared.state.writeShutdown = true) :
    ∃ e, ReturnsAlone core id (.error e) := by
  induction hn : refusal call.pc using Nat.strong_induction_on generalizing core call with
  | h n ih =>
    rcases h.next hflag id with ⟨e, hdone⟩ | ⟨pc, hpoll, hlt⟩
    · exact ⟨e, .returned hcall hdone⟩
    · have hnext : Refusing { call with pc } := h.polled (polled_of_poll hpoll).2 rfl hflag
      have hcall' : ({ core with calls := Function.update core.calls id (some { call with pc }) }
          : Core ι).calls id = some { call with pc } := Function.update_self ..
      obtain ⟨e, hreturns⟩ := ih _ (hn ▸ hlt) hnext hcall' hflag rfl
      exact ⟨e, .polled (core.step_quiet hcall hpoll) hreturns⟩

omit [DecidableEq ι] in
/-- It has handed over nothing, and has not succeeded. -/
theorem Refusing.outcome (h : Refusing call) : call.handed = [] ∧
    ∀ outcome, call.outcome = some outcome → ∃ e, outcome = .error e := by
  obtain ⟨-, hwritten, hpc⟩ := h
  refine ⟨Call.handed_eq_nil hwritten, fun outcome houtcome => ?_⟩
  unfold Call.outcome at houtcome
  rcases hpc with h | h | h | h | ⟨e, h⟩ <;> rw [h] at houtcome
  all_goals first
    | exact ⟨e, (Option.some.inj houtcome).symm⟩
    | exact absurd houtcome nofun

/-- It is refused in any company. -/
theorem refusing_of_runs {allowed : Core ι → Label ι → Prop} (hnone : core.calls id = none)
    (hflag : core.shared.state.writeShutdown = true) (h : Runs Core.step allowed core core') :
    core'.shared.state.writeShutdown = true ∧ ∀ call, core'.calls id = some call →
      call.op.buffer ≠ [] → (call.pc = .dropped ∧ call.written = 0) ∨ Refusing call := by
  refine call_behind_of_runs .writeShutdown rfl (fun call => call.op.buffer ≠ [] →
    (call.pc = .dropped ∧ call.written = 0) ∨ Refusing call) hnone hflag h ?_ ?_ ?_
  · exact fun op hbuffer => Or.inr ⟨hbuffer, rfl, Or.inl rfl⟩
  · intro sh call call' effect hpolled hop hflag hrefusing hbuffer
    rcases hrefusing (hop ▸ hbuffer) with ⟨hdropped, -⟩ | hrefusing
    · exact absurd hpolled.live (hdropped ▸ not_false)
    · exact Or.inr (hrefusing.polled hpolled hop hflag)
  · intro call hrefusing hbuffer
    rcases hrefusing hbuffer with ⟨-, hwritten⟩ | hrefusing
    · exact Or.inl ⟨rfl, hwritten⟩
    · exact Or.inl ⟨rfl, hrefusing.2.1⟩

/-! ### A send that asks for the gate first -/

/-- Where a send stands on its way from the queue of the gate to its return. -/
def Going : PC → Prop
  | .gateWait => True
  | .ensure behindGate _ => behindGate = true
  | .streamClosed => True
  | .stream => True
  | .io => True
  | .unwind outcome => outcome = .ok .unit
  | _ => False

/-- The connection is neither paused nor closed, nobody is dropped, and `i` meets no deadline. -/
def Calm (i : ι) (core : Core ι) (label : Label ι) : Prop :=
  core.shared.state.paused = false ∧ core.shared.state.closed = false ∧ label.isDrop = false ∧
    label ≠ .poll i .timeout

/-- Another `shutdown_write` has set the flag, and `j` will not get past its check of it. -/
def Late (core : Core ι) (j : ι) : Prop :=
  core.shared.state.writeShutdown = true ∧ ∀ c, core.calls j = some c → c.op = .shutdownWrite →
    c.pc ≠ .store ∧ ¬Checked c.pc

/-- What becomes of a call of `op` that has asked for the gate ahead of `j`. -/
inductive Served (core : Core ι) (i : ι) (op : Op) (j : ι) : Prop
  | going (call : Call) : core.calls i = some call → call.op = op → Going call.pc →
      core.shared.state.writeShutdown = false → core.shared.writeGate.Ahead i j →
      Served core i op j
  | returned (call : Call) : core.calls i = some call → call.op = op →
      call.pc = .done (.ok .unit) → Served core i op j
  | failed (call : Call) (first : Bool) (e : Error) : core.calls i = some call → call.op = op →
      call.pc = .closing .closed first (some e) → Served core i op j
  | late : Late core j → Served core i op j

omit [DecidableEq ι] in
theorem Op.buffer_or_whole (h : op.whole = true) : op.reads = false ∧ op.flag = .writeShutdown := by
  cases op <;> first | exact absurd h Bool.false_ne_true | exact ⟨rfl, rfl⟩

omit [DecidableEq ι] in
/-- A send on its way, in a calm connection. -/
theorem Polled.going (h : Polled sh id op pc w effect pc' w') (hwhole : op.whole = true)
    (hgoing : Going pc) (htyped : op.Typed pc) (hclosed : sh.state.closed = false)
    (hpaused : sh.state.paused = false) (hopen : sh.state.writeShutdown = false)
    (htoken : sh.closeToken = false) (hstream : sh.stream = true) :
    Going pc' ∨ pc' = .done (.ok .unit) ∨ (∃ first e, pc' = .closing .closed first (some e)) ∨
      pc = .gateWait := by
  obtain ⟨hreads, hflag⟩ := Op.buffer_or_whole hwhole
  have hinterrupted : ¬(op.reads = true ∨ sh.closeToken = true) := by simp [hreads, htoken]
  cases h with
  | refused b flag hset =>
    rcases htyped with rfl | rfl | rfl
    · exact absurd (hclosed.symm.trans hset) (by rintro ⟨⟩)
    · exact absurd (hpaused.symm.trans hset) (by rintro ⟨⟩)
    · rw [hflag] at hset
      exact absurd (hopen.symm.trans hset) (by rintro ⟨⟩)
  | passed b flag _ =>
    obtain rfl := hgoing
    cases flag <;> exact Or.inl (by simp [Op.afterEnsure, Going])
  | granted _ => exact Or.inr (Or.inr (Or.inr rfl))
  | withdrew e _ => exact Or.inr (Or.inr (Or.inr rfl))
  | closedSeen e hset => exact absurd (hclosed.symm.trans hset) (by rintro ⟨⟩)
  | openSeen _ => exact Or.inl trivial
  | noStream e hempty => exact absurd (hstream.symm.trans hempty) (by rintro ⟨⟩)
  | stream _ => exact Or.inl trivial
  | interrupted e hready => exact absurd hready hinterrupted
  | accepted n _ _ _ => exact Or.inl trivial
  | completed n _ _ _ => exact Or.inl rfl
  | acceptedOnce data n hop _ _ =>
    subst hop
    cases hwhole
  | failed e _ => exact Or.inr (Or.inr (Or.inl ⟨_, _, rfl⟩))
  | readEof h => exact absurd (hreads.symm.trans h) (by rintro ⟨⟩)
  | answered outcome _ h => exact absurd (hwhole.symm.trans h) (by rintro ⟨⟩)
  | released outcome =>
    obtain rfl := hgoing
    exact Or.inr (Or.inl rfl)
  | _ => exact hgoing.elim

/-- Where nothing else is ready a call in the queue can only be given the gate. -/
theorem Call.poll_gateWait {choice : Choice} (h : call.poll sh id choice = some (call', effect))
    (hpc : call.pc = .gateWait) (hreads : call.op.reads = false) (htoken : sh.closeToken = false)
    (hchoice : choice ≠ .timeout) : call' = { call with pc := call.op.enterGate } := by
  obtain ⟨op, pc, w⟩ := call
  dsimp only at hpc hreads
  subst hpc
  cases choice with
  | gate =>
    simp only [Call.poll] at h
    split_ifs at h
    exact (congrArg Prod.fst (Option.some.inj h)).symm
  | timeout => exact absurd rfl hchoice
  | _ => simp [Call.poll, Op.giveUp, hreads, htoken] at h

theorem Core.step_gateWait {choice : Choice} (h : core.step (.poll i choice) = some core')
    (hcall : core.calls i = some call) (hpc : call.pc = .gateWait) (hreads : call.op.reads = false)
    (htoken : core.shared.closeToken = false) (hchoice : choice ≠ .timeout) :
    core'.calls i = some { call with pc := call.op.enterGate } := by
  simp only [Core.step, hcall] at h
  obtain ⟨⟨call', effect⟩, hpoll, rfl⟩ := Option.map_eq_some_iff.mp h
  rw [← Call.poll_gateWait hpoll hpc hreads htoken hchoice]
  exact Function.update_self ..

/-- The flag is set by a `shutdown_write`, or by a full close. -/
theorem Polled.writeShutdown (h : Polled sh id op pc w effect pc' w')
    (hclear : sh.state.writeShutdown = false)
    (hset : (sh.perform id op effect).state.writeShutdown = true) :
    (op = .shutdownWrite ∧ pc = .store) ∨
      ∃ first error, pc = .closing .writeShutdown first error := by
  have heffect : effect = .store .writeShutdown true := by
    have hnone : ∀ sh' : Shared ι, sh'.state.writeShutdown = sh.state.writeShutdown →
        sh'.state.writeShutdown ≠ true := by
      intro sh' heq hset
      exact absurd (hclear.symm.trans (heq.symm.trans hset)) (by rintro ⟨⟩)
    cases effect with
    | store flag value =>
      cases flag with
      | writeShutdown => rw [show value = true from hset]
      | _ => exact absurd hset (hnone _ rfl)
    | request => exact absurd hset (hnone _ (by simp [Shared.perform]))
    | leave => exact absurd hset (hnone _ (by simp [Shared.perform]))
    | _ => exact absurd hset (hnone _ rfl)
  cases h with
  | stored hstored =>
    subst heffect
    cases op <;> first
      | exact Or.inl ⟨rfl, rfl⟩
      | exact absurd hstored (by simp [Op.stored])
  | closing stage first error =>
    cases stage <;> first
      | exact Or.inr ⟨_, _, rfl⟩
      | cases heffect
  | _ => cases heffect

/-- What sets the flag in a connection that is not closed holds the gate. -/
theorem WireInv.writeShutdown (hinv : WireInv core) (h : core.Stepped label id call core')
    (hdrop : label.isDrop = false) (hclosed : core.shared.state.closed = false)
    (hclear : core.shared.state.writeShutdown = false)
    (hset : core'.shared.state.writeShutdown = true) :
    core.shared.writeGate.holder = some id := by
  cases h with
  | called id op hnone => exact absurd (hclear.symm.trans hset) nofun
  | dropped id call effect hcall _ => exact absurd hdrop nofun
  | polled id choice call call' effect hcall hop hpolled =>
    rcases hpolled.writeShutdown hclear hset with ⟨hop, hpc⟩ | ⟨first, error, hpc⟩
    · have hat := hinv.at_place id
      rw [Core.place_eq hcall, hop, hpc] at hat
      exact hat
    · have hsound := hinv.sound id call hcall
      rw [hpc] at hsound
      exact absurd (hclosed.symm.trans (hsound.2 nofun)) nofun

omit [DecidableEq ι] in
theorem Op.place_of_going (hwhole : op.whole = true) (hgoing : Going pc) :
    op.place pc = .waiting ∨ op.place pc = .holding := by
  have hreads := (Op.buffer_or_whole hwhole).1
  unfold Op.place
  cases pc <;> first | exact hgoing.elim | simp_all [Going]

omit [DecidableEq ι] in
theorem WireInv.mem_queue_of_going (hinv : WireInv core) (hcall : core.calls i = some call)
    (hwhole : call.op.whole = true) (hgoing : Going call.pc) :
    i ∈ core.shared.writeGate.queue := by
  have hat := hinv.at_place i
  rw [Core.place_eq hcall] at hat
  exact hat.mem_queue (Op.place_of_going hwhole hgoing)

omit [DecidableEq ι] in
/-- A call of `shutdown_write` that has passed its check of the flag holds the gate. -/
theorem WireInv.holder_of_shutting (hinv : WireInv core) (hcall : core.calls j = some call)
    (hop : call.op = .shutdownWrite) (hpc : call.pc = .store ∨ Checked call.pc) :
    core.shared.writeGate.holder = some j := by
  have hat := hinv.at_place j
  rw [Core.place_eq hcall, hop] at hat
  rcases hpc with hpc | hpc
  · rw [hpc] at hat
    exact hat
  · cases h : call.pc <;> rw [h] at hpc hat <;> first | exact hpc.elim | exact hat

omit [DecidableEq ι] in
/-- A call of `shutdown_write` gets past its check only with the flag clear. -/
theorem Polled.late (h : Polled sh id .shutdownWrite pc w effect pc' w')
    (hbehind : ShutBehind sh pc) (hflag : sh.state.writeShutdown = true)
    (hpc : pc ≠ .store ∧ ¬Checked pc) : pc' ≠ .store ∧ ¬Checked pc' := by
  have hfinish : ∀ b outcome, PC.finish b outcome ≠ .store ∧ ¬Checked (.finish b outcome) := by
    intro b outcome
    cases b <;> exact ⟨nofun, not_false⟩
  cases h with
  | eof b _ => exact hfinish b _
  | refused b flag _ => exact hfinish b _
  | passed b flag _ => exact hbehind.elim
  | idle b flag _ => exact hfinish b _
  | busy b flag hclear =>
    rcases hbehind with rfl | rfl
    · exact ⟨nofun, not_false⟩
    · exact absurd (hflag.symm.trans hclear) nofun
  | stored _ => exact absurd rfl hpc.1
  | openSeen _ => exact absurd trivial hpc.2
  | stream _ => exact absurd trivial hpc.2
  | accepted n hwhole _ _ => exact absurd hwhole nofun
  | closing stage first error =>
    rcases pollClosing_cases sh stage first error with ⟨stage', first', -, h⟩ | ⟨e, -, h⟩ |
      ⟨-, h | h⟩ <;> rw [h] <;> exact ⟨nofun, not_false⟩
  | _ => exact ⟨nofun, not_false⟩

theorem Late.step (hlate : Late core j) (hinv : ShutInv core answers)
    (h : core.step label = some core') : Late core' j := by
  refine ⟨load_of_step .writeShutdown rfl h hlate.1, fun c hc hop => ?_⟩
  obtain ⟨k, call', hstepped, hchange⟩ := hinv.close.wire.change h
  by_cases hj : j = k
  · subst hj
    obtain rfl := Option.some.inj (hchange.calls_self.symm.trans hc)
    cases hstepped with
    | called id op hnone => exact ⟨nofun, not_false⟩
    | dropped id call effect hcall hdrop => exact ⟨nofun, not_false⟩
    | polled id choice call call' effect hcall hop' hpolled =>
      have hbehind := hinv.behind _ call hcall (hop' ▸ hop)
      rw [← hop', hop] at hpolled
      exact hpolled.late hbehind hlate.1 (hlate.2 call hcall (hop' ▸ hop))
  · exact hlate.2 c (hchange.calls_of_ne hj ▸ hc) hop

theorem Polled.closed_of_swap {first : Bool} {error : Option Error}
    (h : Polled sh id op (.closing .closed first error) w effect pc' w') :
    (sh.perform id op effect).state.closed = true := by
  cases h
  rfl

/-- A send on its way, while somebody else steps. -/
theorem Served.step_other {k : ι} (hwhole : call.op.whole = true)
    (hcall : core.calls i = some call) (hgoing : Going call.pc)
    (hclear : core.shared.state.writeShutdown = false)
    (hahead : core.shared.writeGate.Ahead i j) (hinv : WireInv core)
    (hstepped : core.Stepped label k call' core') (hchange : Change core label k call' core')
    (hcalm : Calm i core label) (hne : i ≠ k) : Served core' i call.op j := by
  have hcall' : core'.calls i = some call := (hchange.calls_of_ne hne).trans hcall
  cases hset : core'.shared.state.writeShutdown with
  | false =>
    exact .going call hcall' rfl hgoing hset
      (hchange.move.ahead (hinv.at_place k) (fun hk => absurd hk.symm hne) hahead)
  | true =>
    have hholder := hinv.writeShutdown hstepped hcalm.2.2.1 hcalm.2.1 hclear hset
    -- `i` is in the queue still, so it is not the turn of `j`
    have hjk : j ≠ k := by
      rintro rfl
      exact (hahead.of_holder hinv.once hholder).2 (hinv.mem_queue_of_going hcall hwhole hgoing)
    refine .late ⟨hset, fun c hc hop => ?_⟩
    rw [hchange.calls_of_ne hjk] at hc
    exact not_or.mp fun hpc =>
      hjk (Option.some.inj ((hinv.holder_of_shutting hc hop hpc).symm.trans hholder))

/-- A send on its way steps in a calm connection. -/
theorem Served.step_self (hwhole : call.op.whole = true) (hcall : core.calls i = some call)
    (hgoing : Going call.pc) (hclear : core.shared.state.writeShutdown = false)
    (hahead : core.shared.writeGate.Ahead i j) (hinv : ShutInv core answers)
    (hstepped : core.Stepped label i call' core') (hchange : Change core label i call' core')
    (h : core.step label = some core') (hcalm : Calm i core label) :
    Served core' i call.op j := by
  obtain ⟨hpaused, hclosed, hdrop, htimeout⟩ := hcalm
  obtain ⟨-, htoken, hstream⟩ := hinv.close.opened hclosed
  have hcall' := hchange.calls_self
  have hat := hinv.close.wire.at_place i
  cases hstepped with
  | called id op hnone => exact absurd (hnone.symm.trans hcall) nofun
  | dropped id c effect hc _ => exact absurd hdrop nofun
  | polled id choice c call' effect hc hop hpolled =>
    obtain rfl := Option.some.inj (hcall.symm.trans hc)
    have hwhole' : call'.op.whole = true := by rw [hop, hwhole]
    have hnext : Going call'.pc → Served
        { shared := core.shared.perform i call.op effect
          calls := Function.update core.calls i (some call') } i call.op j := by
      intro hgoing'
      refine .going call' hcall' hop hgoing' ?_ (hchange.move.ahead hat ?_ hahead)
      · by_contra hset
        rcases hpolled.writeShutdown hclear (by simpa using hset) with ⟨-, hpc⟩ | ⟨_, _, hpc⟩
        · exact absurd (show Going .store from hpc ▸ hgoing) not_false
        · exact absurd (show Going (.closing _ _ _) from hpc ▸ hgoing) not_false
      · rintro - - hleft
        rcases Op.place_of_going hwhole' hgoing' with h | h <;> rw [h] at hleft <;>
          exact absurd hleft nofun
    rcases hpolled.going hwhole hgoing (hinv.close.wire.typed i call hcall) hclosed hpaused hclear
      htoken hstream with hgoing' | hdone | ⟨first, e, hfailed⟩ | hwaits
    · exact hnext hgoing'
    · exact .returned call' hcall' hop hdone
    · exact .failed call' first e hcall' hop hfailed
    · -- given the gate, and not the branch of a token or of the deadline
      have hgiven := Core.step_gateWait h hcall hwaits (Op.buffer_or_whole hwhole).1 htoken
        fun hchoice => htimeout (congrArg _ hchoice)
      have hpc : call'.pc = call.op.enterGate :=
        congrArg Call.pc (Option.some.inj (hcall'.symm.trans hgiven))
      refine hnext ?_
      rw [hpc]
      cases hop : call.op <;> rw [hop] at hwhole <;>
        first | exact absurd hwhole Bool.false_ne_true | rfl

/-- **What becomes of a send that comes first**, step by step. -/
theorem Served.step (hwhole : op.whole = true) (hserved : Served core i op j)
    (hinv : ShutInv core answers) (hcalm : Calm i core label) (h : core.step label = some core') :
    core'.shared.state.closed = true ∨ Served core' i op j := by
  obtain ⟨k, call', hstepped, hchange⟩ := hinv.close.wire.change h
  cases hserved with
  | going call hcall hop hgoing hclear hahead =>
    subst hop
    by_cases hi : i = k
    · subst hi
      exact Or.inr (step_self hwhole hcall hgoing hclear hahead hinv hstepped hchange h hcalm)
    · exact Or.inr (step_other hwhole hcall hgoing hclear hahead hinv.close.wire hstepped hchange
        hcalm hi)
  | returned call hcall hop hdone =>
    have hi : i ≠ k := by
      rintro rfl
      have hlive := hchange.live call hcall
      rw [hdone] at hlive
      exact hlive
    exact Or.inr (.returned call ((hchange.calls_of_ne hi).trans hcall) hop hdone)
  | failed call first e hcall hop hfailed =>
    by_cases hi : i = k
    · subst hi
      cases hstepped with
      | called id op hnone => exact absurd (hnone.symm.trans hcall) nofun
      | dropped id c effect hc _ => exact absurd hcalm.2.2.1 nofun
      | polled id choice c call' effect hc _ hpolled =>
        obtain rfl := Option.some.inj (hcall.symm.trans hc)
        rw [hfailed] at hpolled
        exact Or.inl hpolled.closed_of_swap
    · exact Or.inr (.failed call first e ((hchange.calls_of_ne hi).trans hcall) hop hfailed)
  | late hlate => exact Or.inr (.late (hlate.step hinv h))

omit [DecidableEq ι] in
/-- Once it is the turn of `j`, the send has returned with its whole buffer handed over. -/
theorem Served.returned_of_io (hwhole : op.whole = true) (hserved : Served core i op j)
    (hinv : WireInv core) (hcall : core.calls j = some call) (hop : call.op = .shutdownWrite)
    (hpc : call.pc = .io) :
    ∃ c, core.calls i = some c ∧ c.op = op ∧ c.pc = .done (.ok .unit) ∧ c.handed = op.buffer := by
  have hchecked : Checked call.pc := by
    rw [hpc]
    trivial
  have hholder := hinv.holder_of_shutting hcall hop (Or.inr hchecked)
  cases hserved with
  | going c hc hop hgoing _ hahead =>
    subst hop
    exact absurd (hinv.mem_queue_of_going hc hwhole hgoing) (hahead.of_holder hinv.once hholder).2
  | returned c hc hop hdone =>
    subst hop
    have hsound := hinv.sound i c hc
    rw [hdone] at hsound
    exact ⟨c, hc, rfl, hdone, hsound.1.trans (hsound.2 hwhole)⟩
  | failed c first e hc hop hfailed =>
    -- it has not let go of the gate
    subst hop
    have hat := hinv.at_place i
    have hplace : c.op.place c.pc = .holding := by
      rw [hfailed, Op.place, if_neg (by simp [(Op.buffer_or_whole hwhole).1])]
      rfl
    rw [Core.place_eq hc, hplace] at hat
    obtain rfl : j = i := Option.some.inj (hholder.symm.trans hat)
    obtain rfl := Option.some.inj (hcall.symm.trans hc)
    exact absurd (hpc.symm.trans hfailed) (by rintro ⟨⟩)
  | late hlate => exact absurd hchecked (hlate.2 call hcall hop).2

theorem served_of_runs (hinv : ShutInv core answers) (hcall : core.calls i = some call)
    (hwhole : call.op.whole = true) (hpc : call.pc = .gateWait)
    (haway : core.shared.writeGate.At j .away) (h : Runs Core.step (Calm i) core core') :
    (∃ answers', ShutInv core' answers') ∧
      (core'.shared.state.closed = true ∨ Served core' i call.op j) := by
  refine h.invariant (fun c => (∃ answers', ShutInv c answers') ∧
    (c.shared.state.closed = true ∨ Served c i call.op j)) ⟨⟨_, hinv⟩, Or.inr ?_⟩ ?_
  · have hgoing : Going call.pc := by
      rw [hpc]
      trivial
    have hqueue := hinv.close.wire.mem_queue_of_going hcall hwhole hgoing
    cases hclear : core.shared.state.writeShutdown with
    | false =>
      exact .going call hcall rfl hgoing hclear (hinv.close.wire.once.ahead hqueue haway)
    | true =>
      -- the flag is set, and `j` is not behind its check
      refine .late ⟨hclear, fun c hc hop => not_or.mp fun hshutting => haway.1 ?_⟩
      exact mem_queue_of_holder (hinv.close.wire.holder_of_shutting hc hop hshutting)
  · rintro c label c' ⟨⟨answers, hinv⟩, hserved⟩ hcalm hstep
    have hserved := hserved.resolve_left (by simp [hcalm.2.1])
    exact ⟨⟨_, hinv.step hstep⟩, hserved.step hwhole hinv hcalm hstep⟩

/-! ### Where the bytes of a call in the queue stand -/

theorem Change.handed_prefix {call : Call} (h : Change core label id call core') (i : ι) :
    core.handed i <+: core'.handed i := by
  by_cases hi : i = id
  · subst hi
    obtain ⟨bytes, -, hhanded, -⟩ := h.wire
    rw [Core.handed_eq h.calls_self, hhanded]
    exact List.prefix_append _ _
  · exact h.handed_of_ne hi ▸ List.prefix_refl _

/-- The wire, the history of the gate and the bytes of each call grow at their ends. -/
theorem WireInv.grows_of_runs {allowed : Core ι → Label ι → Prop} (hinv : WireInv core)
    (h : Runs Core.step allowed core core') :
    WireInv core' ∧ core.shared.wire <+: core'.shared.wire ∧
      core.shared.writeGate.granted <+: core'.shared.writeGate.granted ∧
      ∀ i, core.handed i <+: core'.handed i := by
  refine h.invariant (fun c => WireInv c ∧ core.shared.wire <+: c.shared.wire ∧
      core.shared.writeGate.granted <+: c.shared.writeGate.granted ∧
      ∀ i, core.handed i <+: c.handed i)
    ⟨hinv, List.prefix_refl _, List.prefix_refl _, fun _ => List.prefix_refl _⟩ ?_
  rintro c label c' ⟨hinv, hwire, hgranted, hhanded⟩ - hstep
  obtain ⟨id, call, -, hchange⟩ := hinv.change hstep
  obtain ⟨bytes, hwire', -⟩ := hchange.wire
  obtain ⟨added, hgranted', -⟩ := hchange.granted_waiting hinv
  exact ⟨hchange.wireInv hinv, hwire.trans ⟨bytes, hwire'.symm⟩,
    hgranted.trans ⟨added, hgranted'.symm⟩, fun i => (hhanded i).trans (hchange.handed_prefix i)⟩

omit [DecidableEq ι] in
/-- Who waits for the gate comes behind all whose bytes are on the wire. -/
theorem WireInv.granted_split (hinv : WireInv core)
    (hgrows : core.shared.writeGate.granted <+: core'.shared.writeGate.granted)
    (hqueue : i ∈ core.shared.writeGate.queue) (hnone : core.handed i = [])
    (hgranted : i ∈ core'.shared.writeGate.granted) :
    ∃ earlier later, core'.shared.writeGate.granted = earlier ++ i :: later ∧
      ∃ first, first <+: earlier ∧ core.shared.wire = first.flatMap core.handed := by
  obtain ⟨added, hadded⟩ := hgrows
  rw [← hadded] at hgranted ⊢
  rcases List.mem_append.mp hgranted with hmem | hmem
  · have hholder : core.shared.writeGate.holder = some i := by
      refine (mem_queue_iff.mp hqueue).resolve_right fun htail => ?_
      exact (List.nodup_append.mp hinv.once.nodup).2.2 i hmem i htail rfl
    obtain ⟨before, hbefore⟩ := hinv.once.last i hholder
    refine ⟨before, added, by simp [hbefore], before, List.prefix_refl _, ?_⟩
    rw [hinv.wire, hbefore]
    simp [hnone]
  · obtain ⟨between, later, hsplit⟩ := List.append_of_mem hmem
    exact ⟨core.shared.writeGate.granted ++ between, later, by simp [hsplit],
      core.shared.writeGate.granted, List.prefix_append _ _, hinv.wire⟩

/-- **The bytes of a call in the queue** will stand in one piece, behind what is on the wire. -/
theorem WireInv.wire_behind {allowed : Core ι → Label ι → Prop} (hinv : WireInv core)
    (h : Runs Core.step allowed core core') (hqueue : i ∈ core.shared.writeGate.queue)
    (hnone : core.handed i = []) :
    ∃ before after,
      core'.shared.wire = core.shared.wire ++ before ++ core'.handed i ++ after := by
  obtain ⟨hinv', hwire, hgranted, hhanded⟩ := hinv.grows_of_runs h
  by_cases hempty : core'.handed i = []
  · obtain ⟨rest, hrest⟩ := hwire
    exact ⟨rest, [], by simp [hempty, hrest]⟩
  obtain ⟨earlier, later, hsplit, first, hfirst, hbytes⟩ :=
    hinv.granted_split hgranted hqueue hnone (hinv'.mem i hempty)
  have hall := hinv'.wire
  rw [hsplit, List.flatMap_append, List.flatMap_cons] at hall
  have hlength : core.shared.wire.length ≤ (earlier.flatMap core'.handed).length := by
    obtain ⟨rest, rfl⟩ := hfirst
    rw [hbytes, List.flatMap_append, List.length_append]
    have hle : (first.flatMap core.handed).length ≤ (first.flatMap core'.handed).length := by
      simp only [List.length_flatMap]
      exact List.sum_le_sum fun k _ => (hhanded k).length_le
    omega
  obtain ⟨before, hbefore⟩ :=
    List.prefix_of_prefix_length_le hwire (hall ▸ List.prefix_append _ _) hlength
  exact ⟨before, later.flatMap core'.handed, by rw [hall, ← hbefore]; simp⟩

/-! ### The order of shutdown and sends -/

/-- **Write shutdown is ordered after the sends queued before it.** Nothing is written once a call
has got as far as the shutdown of the raw stream; a writing call that starts behind the flag hands
over nothing and is refused; and a send that is in the queue of the gate before a `shutdown_write`
asks for it, in a connection that stays calm, has returned `Ok` with its whole buffer handed over
when the latter gets as far as the shutdown of the raw stream: there the buffer stands on the wire
in one piece, behind what stood there before. -/
theorem write_shutdown_after_sends {allowed : Core ι → Label ι → Prop}
    (h : Runs Core.step allowed {} core) :
    (∀ id call, core.calls id = some call → call.op = .shutdownWrite ∨ call.op = .close →
      call.pc = .io → ∀ core', Runs Core.step allowed core core' →
        core'.shared.wire = core.shared.wire) ∧
    (∀ id, core.calls id = none → core.shared.state.writeShutdown = true →
      ∀ core', Runs Core.step allowed core core' → ∀ call, core'.calls id = some call →
        call.op.buffer ≠ [] → call.handed = [] ∧
          (∀ outcome, call.outcome = some outcome → ∃ e, outcome = .error e) ∧
          (call.pc ≠ .dropped → ∃ e, ReturnsAlone core' id (.error e))) ∧
    (∀ i call, core.calls i = some call → call.op.whole = true → call.pc = .gateWait →
      ∀ j, core.shared.writeGate.At j .away → ∀ core', Runs Core.step (Calm i) core core' →
        core'.shared.state.closed = false → ∀ call', core'.calls j = some call' →
          call'.op = .shutdownWrite → call'.pc = .io →
            (∃ c, core'.calls i = some c ∧ c.op = call.op ∧ c.pc = .done (.ok .unit) ∧
              c.handed = call.op.buffer) ∧
            ∃ before after,
              core'.shared.wire = core.shared.wire ++ before ++ call.op.buffer ++ after) := by
  obtain ⟨answers, hinv⟩ := shutInv_of_runs h
  refine ⟨fun id call hcall hop hpc core' hruns => ?_,
    fun id hnone hflag core' hruns call hcall hbuffer => ?_,
    fun i call hcall hwhole hpc j haway core' hruns hopen call' hcall' hop hio => ?_⟩
  · exact (hinv.shut hcall hop hpc).wire_of_runs hinv.close.wire hruns
  · obtain ⟨hflag', hcalls⟩ := refusing_of_runs hnone hflag hruns
    rcases hcalls call hcall hbuffer with ⟨hdropped, hwritten⟩ | hrefusing
    · refine ⟨Call.handed_eq_nil hwritten, fun outcome houtcome => ?_, fun h => absurd hdropped h⟩
      rw [Call.outcome, hdropped] at houtcome
      exact absurd houtcome nofun
    · obtain ⟨hhanded, houtcome⟩ := hrefusing.outcome
      exact ⟨hhanded, houtcome, fun _ => hrefusing.returns hcall hflag'⟩
  · obtain ⟨⟨answers', hinv'⟩, hserved⟩ := served_of_runs hinv hcall hwhole hpc haway hruns
    have hserved := hserved.resolve_left (by simp [hopen])
    obtain ⟨c, hc, hop', hdone, hhanded⟩ :=
      hserved.returned_of_io hwhole hinv'.close.wire hcall' hop hio
    refine ⟨⟨c, hc, hop', hdone, hhanded⟩, ?_⟩
    have hgoing : Going call.pc := by
      rw [hpc]
      trivial
    have hqueue := hinv.close.wire.mem_queue_of_going hcall hwhole hgoing
    have hnone : core.handed i = [] := by
      have hsound := hinv.close.wire.sound i call hcall
      rw [hpc] at hsound
      exact (Core.handed_eq hcall).trans (Call.handed_eq_nil hsound)
    rw [← hhanded, ← Core.handed_eq hc]
    exact hinv.close.wire.wire_behind hruns hqueue hnone

/-! A send waits for the gate when a `shutdown_write` starts. Behind the flag another send starts,
and the shutdown of the raw stream is still pending when it is refused. -/

def queuedRun : List (Label ℕ) :=
  [Label.call 0 (.send [1, 2]), .call 1 .shutdownWrite] ++ List.replicate 4 (Label.poll 0 .go) ++
    [Label.poll 0 .gate]

def shutdownRun : List (Label ℕ) :=
  List.replicate 3 (Label.poll 1 .go) ++ [Label.poll 1 .gate, .poll 0 .gate] ++
    List.replicate 5 (Label.poll 0 .go) ++ [Label.poll 0 (.accept 2), .poll 0 .go, .poll 1 .gate] ++
    List.replicate 5 (Label.poll 1 .go)

def lateRun : List (Label ℕ) := [.call 2 (.send [3]), .poll 2 .go, .poll 2 .go]

def queuedCore : Core ℕ := (runLabels Core.step (fun _ _ => true) {} queuedRun).getD {}

def shutdownCore : Core ℕ := (runLabels Core.step
  (fun core label => !core.shared.state.paused && !core.shared.state.closed && !label.isDrop &&
    decide (label ≠ .poll 0 .timeout)) queuedCore shutdownRun).getD {}

def lateCore : Core ℕ := (runLabels Core.step (fun _ _ => true) shutdownCore lateRun).getD {}

theorem runs_queuedCore : Runs Core.step (fun _ _ => True) {} queuedCore :=
  runs_of_runLabels (fun _ _ _ => trivial)
    (show runLabels _ (fun _ _ => true) {} queuedRun = some queuedCore from rfl)

theorem runs_shutdownCore : Runs Core.step (Calm 0) queuedCore shutdownCore :=
  runs_of_runLabels (fun core label h => by simpa [Calm, and_assoc] using h)
    (show runLabels _ (fun core label => !core.shared.state.paused && !core.shared.state.closed &&
      !label.isDrop && decide (label ≠ .poll 0 .timeout)) queuedCore shutdownRun
      = some shutdownCore from rfl)

theorem runs_lateCore : Runs Core.step (fun _ _ => True) shutdownCore lateCore :=
  runs_of_runLabels (fun _ _ _ => trivial)
    (show runLabels _ (fun _ _ => true) shutdownCore lateRun = some lateCore from rfl)

theorem write_shutdown_after_sends_example :
    (∃ c, shutdownCore.calls 0 = some c ∧ c.op = .send [1, 2] ∧ c.pc = .done (.ok .unit) ∧
      c.handed = [1, 2]) ∧ lateCore.shared.wire = shutdownCore.shared.wire ∧
      ∃ e, ReturnsAlone lateCore 2 (.error e) := by
  have hruns : Runs Core.step (fun _ _ => True) {} shutdownCore :=
    runs_queuedCore.trans (runs_shutdownCore.mono fun _ _ _ => trivial)
  refine ⟨?_, ?_, ?_⟩
  · exact ((write_shutdown_after_sends runs_queuedCore).2.2 0 _ rfl rfl rfl 1
      ⟨by decide, by decide⟩ _ runs_shutdownCore rfl _ rfl rfl rfl).1
  · exact (write_shutdown_after_sends hruns).1 1 _ rfl (Or.inl rfl) rfl _ runs_lateCore
  · exact ((write_shutdown_after_sends hruns).2.1 2 rfl rfl _ runs_lateCore _ rfl nofun).2.2 nofun

end Transport

end Taunicorn
