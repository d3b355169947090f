import Taunicorn.Lib.Conversation
import Taunicorn.Lib.Pool
import Taunicorn.Transport.Interrupt
import Taunicorn.Transport.WhilePaused

/-!
# Every call ends

The calls that have been made, and no others, are left to themselves. Then they come to an end: each
step brings its call nearer to its return, and a raw write that leaves a rest shortens the rest. And
they do not stop before: a call that has not ended can step, or waits in the queue of a gate whose
holder can. What the raw stream is asked for is that it answers, and that it takes a byte of those
it is given.

Dropped calls, failing operations, tokens and deadlines are all allowed on the way, in any order;
none of them is needed.

## Main results

* `Core.Serves.measure` — every step lowers the measure of a call
* `ReadInv.canStep` — where a call waits for nobody but the raw stream, a willing answer moves it
* `exists_holder` — where it waits for a gate, the holder is a call that waits for nobody else
* `calls_return` — both
-/

namespace Taunicorn

namespace Transport

open FifoMutex

variable {ι : Type} {sh : Shared ι} {id i : ι} {op : Op} {pc pc' : PC} {w w' : ℕ}
  {choice : Choice} {effect : Effect} {core core' : Core ι} {call call' : Call} {label : Label ι}
  {peer : Stream'.Seq UInt8} {bytes : List UInt8}

/-! ### The measure -/

/-- What is left of the way of a call, and behind it what is left of its buffer. -/
def Call.measure (call : Call) : ℕ :=
  call.pc.rank * (call.op.buffer.length + 1) + (call.op.buffer.length - call.written)

/-- A shorter way is worth more than the whole buffer. -/
theorem Call.measure_of_rank (hop : call'.op = call.op) (h : call'.pc.rank < call.pc.rank) :
    call'.measure < call.measure := by
  unfold Call.measure
  rw [hop]
  calc call'.pc.rank * (call.op.buffer.length + 1) + (call.op.buffer.length - call'.written)
      < call'.pc.rank * (call.op.buffer.length + 1) + (call.op.buffer.length + 1) := by omega
    _ = (call'.pc.rank + 1) * (call.op.buffer.length + 1) := (Nat.succ_mul ..).symm
    _ ≤ call.pc.rank * (call.op.buffer.length + 1) := Nat.mul_le_mul_right _ h
    _ ≤ _ := Nat.le_add_right _ _

/-- **A raw write that leaves a rest shortens it.** -/
theorem Polled.rest (h : Polled sh id op .io w effect .io w') :
    w < w' ∧ w' < op.buffer.length := by
  cases h with
  | accepted n _ hpos hlt => exact ⟨by omega, hlt⟩

theorem Polled.measure (hop : call'.op = call.op)
    (h : Polled sh id call.op call.pc call.written effect call'.pc call'.written) :
    call'.measure < call.measure := by
  rcases h.rank with hrank | ⟨hpc, hpc'⟩
  · exact Call.measure_of_rank hop hrank
  · rw [hpc, hpc'] at h
    obtain ⟨hlt, hle⟩ := h.rest
    unfold Call.measure
    rw [hop, hpc, hpc']
    omega

/-- Nor is there anything left of a call that is dropped. -/
theorem measure_of_drop (h : call.drop = some effect) :
    ({ call with pc := .dropped } : Call).measure < call.measure := by
  refine Call.measure_of_rank rfl ?_
  rcases (drop_eq_some h).1 with hpc | hpc | hpc <;> rw [hpc] <;>
    exact Nat.succ_pos _

/-! ### Who comes to a gate -/

/-- The operations that come to a gate. -/
def Op.Gates (op : Op) : Prop := op.Pausable ∨ op = .shutdownWrite ∨ op = .close

/-- Which operations stand where. -/
def Op.Gated (op : Op) : PC → Prop
  | .eof _ => op.Pausable
  | .ensure _ _ => op.Pausable
  | .deadline => op.Gates
  | .gate => op.Gates
  | .gateWait => op.Gates
  | .streamClosed => op.Gates
  | .stream => op.Gates
  | .io => op.Gates
  | _ => True

theorem Polled.gated (h : Polled sh id op pc w effect pc' w') (htyped : op.Typed pc)
    (hgated : op.Gated pc) : op.Gated pc' := by
  have hfinish : ∀ b outcome, op.Gated (.finish b outcome) := by
    intro b outcome
    cases b <;> trivial
  cases h with
  | entered =>
    have hpausable : op.enter = .eof false ∨ op.enter = .ensure false .closed → op.Pausable :=
      fun h => h
    rcases op.enter_cases with ⟨v, h, -⟩ | ⟨h, -⟩ | h | ⟨h, -⟩ | ⟨h, -⟩
    · rw [h]; trivial
    · have hop := hpausable (Or.inl h)
      rw [h]
      exact hop
    · have hop := hpausable (Or.inr h)
      rw [h]
      exact hop
    · rw [h]; trivial
    · rw [h]; trivial
  | eof b _ => exact hfinish b _
  | notEof b _ => exact hgated
  | refused b flag _ => exact hfinish b _
  | passed b flag _ =>
    rcases op.afterEnsure_cases b flag with ⟨next, h⟩ | ⟨h, -⟩ | ⟨-, ⟨h, -⟩ | h⟩ <;> rw [h]
    · exact hgated
    all_goals exact Or.inl hgated
  | idle b flag _ => exact hfinish b _
  | busy b flag _ =>
    cases op <;> cases flag <;> cases b <;> first | trivial | exact Or.inr (Or.inl rfl)
  | dated _ => exact hgated
  | requested => exact hgated
  | granted _ =>
    rcases hgated with hop | rfl | rfl
    · cases op <;> first | exact hop | trivial | exact Or.inl hop
    · trivial
    · exact Or.inr (Or.inr rfl)
  | stored hstored =>
    cases Op.stores_of_stored hstored <;> first | trivial | exact Or.inr (Or.inl rfl)
  | openSeen _ => exact hgated
  | stream _ => exact hgated
  | accepted n _ _ _ => exact hgated
  | closing stage first error =>
    rcases pollClosing_cases sh stage first error with ⟨stage', first', -, h⟩ | ⟨e, -, h⟩ |
      ⟨hnone, h | h⟩ <;> rw [h]
    · trivial
    · trivial
    · exact Or.inr (Or.inr (htyped hnone))
    · trivial
  | _ => trivial

/-! ### Who waits for whom -/

/-- Somebody in the queue of the read gate has a call, which waits or holds. -/
theorem ReadInv.call_of_holder {j : ι} (hinv : ReadInv peer core bytes)
    (hholder : core.shared.readGate.holder = some j) :
    ∃ c, core.calls j = some c ∧ c.pc.Live ∧ c.op.reads = true := by
  have hplace := (hinv.logged.at_place j).of_mem_queue (mem_queue_of_holder hholder)
  cases hcall : core.calls j with
  | none => simp [Core.readPlace, hcall] at hplace
  | some c =>
    rw [Core.readPlace_eq hcall] at hplace
    unfold Op.readPlace at hplace
    cases hreads : c.op.reads with
    | false => simp [hreads] at hplace
    | true =>
      refine ⟨c, rfl, ?_, hreads⟩
      cases hpc : c.pc <;> simp [hreads, hpc] at hplace <;> trivial

/-- **Whoever waits for a gate waits for a holder** that has a call, and does not wait for the gate
itself. -/
theorem ReadInv.exists_holder (hinv : ReadInv peer core bytes) (hcall : core.calls id = some call)
    (hpc : call.pc = .gateWait) : ∃ j c, (core.shared.gate call.op).holder = some j ∧
      core.calls j = some c ∧ c.pc.Live ∧
        (core.shared.gate c.op).holder = some j := by
  cases hreads : call.op.reads with
  | true =>
    have hgate : core.shared.gate call.op = core.shared.readGate := if_pos hreads
    have hat := hinv.logged.at_place id
    rw [Core.readPlace_eq hcall, hpc] at hat
    simp only [Op.readPlace, hreads, if_true] at hat
    obtain ⟨j, hj⟩ := Option.ne_none_iff_exists'.mp
      fun hnone => List.ne_nil_of_mem hat (holder_eq_none.mp hnone)
    obtain ⟨c, hc, hlive, hcreads⟩ := hinv.call_of_holder hj
    have hcgate : core.shared.gate c.op = core.shared.readGate := if_pos hcreads
    exact ⟨j, c, hgate ▸ hj, hc, hlive, hcgate ▸ hj⟩
  | false =>
    have hgate : core.shared.gate call.op = core.shared.writeGate := by
      simp [Shared.gate, hreads]
    have hat := hinv.wire.at_place id
    rw [Core.place_eq hcall, hpc] at hat
    simp only [Op.place, hreads, Bool.false_eq_true, if_false] at hat
    obtain ⟨j, hj⟩ := Option.ne_none_iff_exists'.mp
      fun hnone => List.ne_nil_of_mem hat (holder_eq_none.mp hnone)
    obtain ⟨c, hc, hlive⟩ := hinv.wire.call_of_holder hj
    refine ⟨j, c, hgate ▸ hj, hc, hlive, ?_⟩
    have hplace := (hinv.wire.at_place j).of_mem_queue (mem_queue_of_holder hj)
    rw [Core.place_eq hc] at hplace
    have hcreads : c.op.reads = false := by
      by_contra hcreads
      rw [Op.place_of_reads (by simpa using hcreads)] at hplace
      rcases hplace with hplace | hplace <;> cases hplace
    simpa [Shared.gate, hcreads] using hj

/-! ### A raw stream that does its part -/

/-- The answers of a raw stream that does its part, and none that a deadline gives. -/
def Choice.Willing : Choice → Prop
  | .timeout => False
  | .fail _ => False
  | .accept n => n ≠ 0
  | _ => True

/-- **The next byte of the peer**, or nothing at the end. -/
theorem exists_chunk (htaken : bytes = peer.take bytes.length) : ∃ chunk : List UInt8,
    chunk.length ≤ 1 ∧ bytes ++ chunk = peer.take (bytes ++ chunk).length ∧
      (chunk = [] → peer.TerminatedAt bytes.length) := by
  cases hget : peer.get? bytes.length with
  | none => exact ⟨[], by simp, by simpa using htaken, fun _ => hget⟩
  | some byte =>
    refine ⟨[byte], le_rfl, List.ext_getElem? fun n => ?_, by simp⟩
    rw [Stream'.Seq.getElem?_take, List.length_append, List.length_singleton]
    rcases lt_trichotomy n bytes.length with hlt | rfl | hgt
    · rw [List.getElem?_append_left hlt, if_pos (by omega), htaken, Stream'.Seq.getElem?_take,
        if_pos hlt]
    · rw [List.getElem?_append_right le_rfl, if_pos (by omega), hget, Nat.sub_self]
      rfl
    · rw [if_neg (by omega), List.getElem?_eq_none_iff, List.length_append, List.length_singleton]
      omega

/-- A writer at the raw stream has a rest to hand over. -/
theorem WireInv.lt_of_io (hinv : WireInv core) (hcall : core.calls id = some call)
    (hpc : call.pc = .io) (hbuffer : call.op.buffer ≠ []) :
    call.written < call.op.buffer.length := by
  have hsound := hinv.sound id call hcall
  rw [hpc] at hsound
  rcases hsound with h0 | ⟨-, hlt⟩
  · rw [h0]
    exact List.length_pos_iff.mpr hbuffer
  · exact hlt

variable [DecidableEq ι]

/-! ### Coming to an end -/

/-- A step that makes no call. -/
def Core.Serves (peer : Stream'.Seq UInt8) (x x' : Core ι × List UInt8) : Prop :=
  ∃ label, (∀ id op, label ≠ .call id op) ∧ Feeds peer x label ∧
    withHistory Core.step consumes x label = some x'

/-- **Every step lowers the measure** of the call that makes it, and is one of no other. -/
theorem Core.Serves.measure {x x' : Core ι × List UInt8} (h : Core.Serves peer x x') :
    ∃ id call call', x.1.calls id = some call ∧
      x'.1.calls = Function.update x.1.calls id (some call') ∧ call'.measure < call.measure := by
  obtain ⟨label, hlabel, -, hstep⟩ := h
  obtain ⟨core, bytes⟩ := x
  obtain ⟨core', bytes'⟩ := x'
  obtain ⟨hcore, -⟩ := withHistory_eq_some.mp hstep
  dsimp only at hcore ⊢
  obtain ⟨id, call', hstepped⟩ := Core.stepped hcore
  have hcalls := hstepped.calls.1
  cases hstepped with
  | called id op hnone => exact absurd rfl (hlabel id op)
  | polled id choice call call' effect hcall hop hpolled =>
    exact ⟨id, call, call', hcall, hcalls, hpolled.measure hop⟩
  | dropped id call effect hcall hdrop =>
    exact ⟨id, call, _, hcall, hcalls, measure_of_drop hdrop⟩

/-- Only finitely many calls have been made. -/
theorem Core.exists_callsWithin {allowed : Core ι → Label ι → Prop}
    (h : Runs Core.step allowed {} core) : ∃ ids, CallsWithin core.calls ids := by
  refine h.invariant (fun core => ∃ ids, CallsWithin core.calls ids) ⟨∅, callsWithin_empty⟩ ?_
  rintro core label core' ⟨ids, hids⟩ - hstep
  obtain ⟨id, call, hstepped⟩ := Core.stepped hstep
  rw [hstepped.calls.1]
  exact ⟨insert id ids, hids.insert⟩

/-! ### Who can step -/

/-- A call has a step for which the raw stream does its part. -/
def CanStep (peer : Stream'.Seq UInt8) (x : Core ι × List UInt8) (id : ι) : Prop :=
  ∃ choice, choice.Willing ∧ Feeds peer x (.poll id choice) ∧ (x.1.step (.poll id choice)).isSome

/-- **A willing answer of the raw stream** moves whoever waits for it. -/
theorem exists_answer (hinv : ReadInv peer core bytes) (hcall : core.calls id = some call)
    (hpc : call.pc = .io) (hop : call.op.Gates) : ∃ choice : Choice, choice.Willing ∧
      Feeds peer (core, bytes) (.poll id choice) ∧ (call.poll core.shared id choice).isSome := by
  have hlt := hinv.wire.lt_of_io hcall hpc
  obtain ⟨op, pc, w⟩ := call
  dsimp only at hpc hop hlt
  subst hpc
  cases op with
  | receive max =>
    obtain ⟨chunk, hlen, htaken, hended⟩ := exists_chunk hinv.taken
    have hmax : max ≠ 0 := by
      rintro rfl
      rcases hop with (h | h) | h | h <;> simp [Op.enter] at h
    refine ⟨.read chunk, trivial, ⟨htaken, hended⟩, ?_⟩
    have hle : chunk.length ≤ max := by omega
    simp [Call.poll, Op.interrupted, Op.giveUp, pollIo, hle]
  | writeOnce data =>
    have hdata : data ≠ [] := by
      rintro rfl
      rcases hop with (h | h) | h | h <;> simp [Op.enter] at h
    have hle : 1 ≤ data.length := List.length_pos_iff.mpr hdata
    refine ⟨.accept 1, Nat.one_ne_zero, trivial, ?_⟩
    simp [Call.poll, Op.interrupted, Op.giveUp, pollIo, hle]
  | send data =>
    have hdata : data ≠ [] := by
      rintro rfl
      rcases hop with (h | h) | h | h <;> simp [Op.enter] at h
    have hle : w + 1 ≤ data.length := hlt hdata
    refine ⟨.accept 1, Nat.one_ne_zero, trivial, ?_⟩
    simp [Call.poll, Op.interrupted, Op.giveUp, pollIo, pollSend, hle]
  | sendTimeout data timeout =>
    have hdata : data ≠ [] := by
      rintro rfl
      rcases hop with (h | h) | h | h <;> simp [Op.enter] at h
    have hle : w + 1 ≤ data.length := hlt hdata
    refine ⟨.accept 1, Nat.one_ne_zero, trivial, ?_⟩
    simp [Call.poll, Op.interrupted, Op.giveUp, pollIo, pollSendTimeout, hle]
  | flush => exact ⟨.complete, trivial, trivial, rfl⟩
  | shutdownWrite => exact ⟨.complete, trivial, trivial, rfl⟩
  | close => exact ⟨.complete, trivial, trivial, rfl⟩
  | _ => exfalso; rcases hop with (h | h) | h | h <;> simp [Op.enter] at h

/-- **A call that waits for no gate can step.** -/
theorem ReadInv.canStep (hinv : ReadInv peer core bytes) (hcall : core.calls id = some call)
    (hlive : call.pc.Live) (hidles : call.op.Idles call.pc) (hgated : call.op.Gated call.pc)
    (hwait : call.pc = .gateWait → (core.shared.gate call.op).holder = some id) :
    CanStep peer (core, bytes) id := by
  obtain ⟨choice, hwilling, hfeeds, hpoll⟩ : ∃ choice : Choice, choice.Willing ∧
      Feeds peer (core, bytes) (.poll id choice) ∧ (call.poll core.shared id choice).isSome := by
    by_cases hio : call.pc = .io
    · exact exists_answer hinv hcall hio (by rwa [hio] at hgated)
    · obtain ⟨op, pc, w⟩ := call
      dsimp only at hlive hidles hwait hio
      cases pc with
      | deadline =>
        obtain ⟨data, timeout, rfl⟩ := hidles
        exact ⟨.now default, trivial, trivial, rfl⟩
      | gate => exact ⟨.gate, trivial, trivial, rfl⟩
      | gateWait =>
        have hholder := hwait rfl
        exact ⟨.gate, trivial, trivial, by simp [Call.poll, hholder]⟩
      | store =>
        obtain ⟨stored, hstored⟩ := Option.ne_none_iff_exists'.mp hidles
        exact ⟨.go, trivial, trivial, by simp [Call.poll, hstored]⟩
      | io => exact absurd rfl hio
      | done outcome => exact hlive.elim
      | dropped => exact hlive.elim
      | panicked => exact hlive.elim
      | _ => exact ⟨.go, trivial, trivial, rfl⟩
  refine ⟨choice, hwilling, hfeeds, ?_⟩
  simp only [Core.step, hcall, Option.isSome_map]
  exact hpoll

/-! ### Every call ends -/

/-- **Every call ends.** Take any reachable state, and let no further calls be made. Then no run
goes on for ever, whatever is dropped, fails, is cancelled or passes its deadline on the way. And as
long as a call has not ended, it can step with a raw stream that does its part, or it waits for a
gate and the holder can. -/
theorem calls_return {x : Core ι × List UInt8}
    (h : Runs (withHistory Core.step consumes) (Feeds peer) ({}, []) x) :
    Acc (fun x' x => Core.Serves peer x x') x ∧
      ∀ id call, x.1.calls id = some call → call.pc.Live → CanStep peer x id ∨
        (call.pc = .gateWait ∧ ∃ j, (x.1.shared.gate call.op).holder = some j ∧
          CanStep peer x j) := by
  obtain ⟨core, bytes⟩ := x
  have hinv : ReadInv peer core bytes := readInv_init.of_runs h
  have hcore : Runs Core.step (fun _ _ => True) {} core := h.of_withHistory fun _ _ _ => trivial
  have hidles := forall_calls_of_runs Op.Idles hcore (fun _ => trivial) (fun _ => trivial)
    fun hpolled => hpolled.idles
  have hgated := forall_calls_of_runs (fun op pc => op.Typed pc ∧ op.Gated pc) hcore
    (fun _ => ⟨trivial, trivial⟩) (fun _ => ⟨trivial, trivial⟩)
    fun hpolled ⟨htyped, hgated⟩ => ⟨hpolled.typed htyped, hpolled.gated htyped hgated⟩
  obtain ⟨ids, hids⟩ := Core.exists_callsWithin hcore
  refine ⟨acc_of_rank (fun x => x.1.calls) (fun _ _ hserves => hserves.measure) hids,
    fun id call hcall hlive => ?_⟩
  have hpoll : ∀ i c, core.calls i = some c → c.pc.Live →
      (c.pc = .gateWait → (core.shared.gate c.op).holder = some i) →
      CanStep peer (core, bytes) i := by
    intro i c hc hclive hwait
    exact hinv.canStep hc hclive (hidles i c hc) (hgated i c hc).2 hwait
  by_cases hpc : call.pc = .gateWait
  · obtain ⟨j, c, hj, hc, hclive, hcj⟩ := hinv.exists_holder hcall hpc
    exact Or.inr ⟨hpc, j, hj, hpoll j c hc hclive fun _ => hcj⟩
  · exact Or.inl (hpoll id call hcall hlive fun h => absurd h hpc)

/-- A call that can step makes one. -/
theorem CanStep.serves {x : Core ι × List UInt8} (h : CanStep peer x id) :
    ∃ x', Core.Serves peer x x' := by
  obtain ⟨choice, -, hfeeds, hstep⟩ := h
  obtain ⟨core', hcore⟩ := Option.isSome_iff_exists.mp hstep
  refine ⟨(core', x.2 ++ consumes x.1 (.poll id choice)), .poll id choice, by simp, hfeeds, ?_⟩
  exact withHistory_eq_some.mpr ⟨hcore, rfl⟩

theorem runs_of_serves {x x' : Core ι × List UInt8}
    (h : Relation.ReflTransGen (Core.Serves peer) x x') :
    Runs (withHistory Core.step consumes) (Feeds peer) x x' := by
  induction h with
  | refl => exact .refl
  | tail _ hstep ih =>
    obtain ⟨label, -, hfeeds, hstep⟩ := hstep
    exact ih.tail hfeeds hstep

/-- In the middle of a send, with the connection paused: everybody ends. -/
theorem calls_return_pausing : ∃ x, Relation.ReflTransGen (Core.Serves peerBytes) pausingCore x ∧
    ∀ id call, x.1.calls id = some call → ¬call.pc.Live := by
  have hruns : ∀ x, Relation.ReflTransGen (Core.Serves peerBytes) pausingCore x →
      Runs (withHistory Core.step consumes) (Feeds peerBytes) ({}, []) x :=
    fun x hreach => runs_pausingCore.trans (runs_of_serves hreach)
  refine exists_end_of_acc (calls_return (hruns _ .refl)).1 fun x hreach => ?_
  by_cases hend : ∀ id call, x.1.calls id = some call → ¬call.pc.Live
  · exact Or.inl hend
  · push Not at hend
    obtain ⟨id, call, hcall, hlive⟩ := hend
    rcases (calls_return (hruns x hreach)).2 id call hcall hlive with hcan | ⟨-, j, -, hcan⟩
    · exact Or.inr hcan.serves
    · exact Or.inr hcan.serves

end Transport

end Taunicorn
