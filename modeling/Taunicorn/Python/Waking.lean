import Taunicorn.Lib.Pool
import Taunicorn.Python.Queue

/-!
# Closing a queue wakes everybody

`close` never waits for the lock of the receiver, since a `recv` may hold it while it waits for an
item. It cancels the token, and that alone has to bring every call to its return: the `send` that
waits for room, the `recv` that waits for an item, those that queue up for the lock behind it, and
the calls that have passed their check of the token before.

## Main results

* `Polled.weight` — while the token is cancelled, every step brings a call nearer to its return
* `close_wakes` — everybody returns
-/

namespace Taunicorn

namespace Queues

open FifoMutex

variable {ι α : Type}

/-- The call has returned, or was dropped. -/
def PC.Over : PC α → Prop
  | .done _ => True
  | .dropped => True
  | _ => False

/-- How far a call is from its return while the token is cancelled. A receive from an empty channel
waits only where the channel has not been closed yet. -/
def PC.weight (closed : Bool) : PC α → ℕ
  | .start => 8
  | .cancel => 7
  | .checkClosed => 7
  | .tryLock => 6
  | .offer => 6
  | .lockWait => 5
  | .waiting => 5
  | .check => 4
  | .closing => 3
  | .take => if closed then 2 else 6
  | .unlock _ => 1
  | .done _ => 0
  | .dropped => 0

theorem PC.weight_le (pc : PC α) {closed closed' : Bool} (h : closed = true → closed' = true) :
    pc.weight closed' ≤ pc.weight closed := by
  cases pc with
  | take =>
    cases closed with
    | false => cases closed' <;> simp [PC.weight]
    | true => rw [h rfl]
  | _ => exact le_refl _

variable [DecidableEq ι] {sh sh' : Shared ι α} {id : ι} {op : Op α} {pc pc' : PC α}
  {q q' : Queue ι α} {call : Call α}

theorem Polled.channel_stays (h : Polled sh id op pc pc' sh') (hclosed : sh.channel.closed = true) :
    sh'.channel.closed = true := by
  cases h with
  | closed => rfl
  | _ => exact hclosed

/-- **While the token is cancelled, a call gets nearer to its return.** -/
theorem Polled.weight (h : Polled sh id op pc pc' sh') (hshutdown : sh.shutdown = true) :
    pc'.weight sh'.channel.closed < pc.weight sh.channel.closed := by
  cases h with
  | entered pc hpc => rcases hpc with ⟨rfl, -⟩ | ⟨rfl, -⟩ | ⟨rfl, -⟩ <;> simp [PC.weight]
  | granted _ => cases op <;> simp [PC.weight, Op.locked]
  | stopped _ => cases op <;> simp [PC.weight, Op.stopped]
  | running hclear => exact absurd (hshutdown.symm.trans hclear) (by simp)
  | checked => cases op <;> cases sh.channel.closed <;> simp [PC.weight, Op.checked]
  | closed => cases op <;> simp [PC.weight, Op.closed, Channel.close]
  | full pc hpc => rcases hpc with rfl | rfl <;> simp [PC.weight]
  | nothing _ => cases op <;> cases sh.channel.closed <;> simp [PC.weight, Op.nothing]
  | taken x rest _ => cases sh.channel.closed <;> simp [PC.weight]
  | _ => simp [PC.weight]

/-- A call is dropped at an await point, and that is its end. -/
theorem weight_of_drop {closed : Bool} (h : drop sh id call = some sh') :
    0 < call.pc.weight closed ∧ sh'.channel = sh.channel ∧ sh'.shutdown = sh.shutdown := by
  unfold drop at h
  split at h
  all_goals first
    | (next hpc => cases h; exact ⟨by simp [hpc, PC.weight], rfl, rfl⟩)
    | exact absurd h (by simp)

/-- What a poll or a drop does to the calls. -/
theorem Queue.weight_of_step
    (h : q.step (.poll id) = some q' ∨ q.step (.drop id) = some q')
    (hshutdown : q.shared.shutdown = true) : q'.shared.shutdown = true ∧
      ∃ call call', q.calls id = some call ∧
        q'.calls = Function.update q.calls id (some call') ∧
        call'.pc.weight q'.shared.channel.closed < call.pc.weight q.shared.channel.closed ∧
        (q.shared.channel.closed = true → q'.shared.channel.closed = true) := by
  rcases h with h | h
  · simp only [Queue.step] at h
    split at h
    · exact absurd h (by simp)
    · next call hcall =>
      obtain ⟨⟨pc, sh'⟩, hpoll, rfl⟩ := Option.map_eq_some_iff.mp h
      have hpolled := polled_of_poll hpoll
      exact ⟨hpolled.lasting.1 hshutdown, call, _, hcall, rfl, hpolled.weight hshutdown,
        hpolled.channel_stays⟩
  · simp only [Queue.step] at h
    split at h
    · exact absurd h (by simp)
    · next call hcall =>
      obtain ⟨sh', hdrop, rfl⟩ := Option.map_eq_some_iff.mp h
      obtain ⟨hpos, hchannel, hsame⟩ := weight_of_drop hdrop
      refine ⟨hsame.trans hshutdown, call, _, hcall, rfl, hpos, fun hclosed => ?_⟩
      exact (congrArg Channel.closed hchannel).trans hclosed

/-! ### Who can be held up -/

omit [DecidableEq ι] in
/-- Only a call with an item offers one. -/
theorem Polled.offers [DecidableEq ι] (h : Polled sh id op pc pc' sh') (hpc : pc' = .offer) :
    op.item ≠ none := by
  cases h with
  | entered pc hentry => rcases hentry with ⟨rfl, -⟩ | ⟨rfl, -⟩ | ⟨rfl, -⟩ <;> simp at hpc
  | granted _ => cases op <;> simp [Op.locked] at hpc
  | stopped _ => cases op <;> simp [Op.stopped] at hpc
  | running _ => cases op <;> simp_all [Op.running, Op.item]
  | checked => cases op <;> cases hclosed : sh.channel.closed <;> simp_all [Op.checked, Op.item]
  | closed => cases op <;> simp [Op.closed] at hpc
  | full pc hfull => rcases hfull with rfl | rfl <;> simp at hpc
  | nothing _ => cases op <;> cases hclosed : sh.channel.closed <;> simp_all [Op.nothing]
  | _ => simp at hpc

/-- What is known behind a run of a new queue, besides its invariant. -/
theorem offers_of_runs {capacity : Option ℕ} {allowed : Queue ι α → Label ι α → Prop}
    (h : Runs Queue.step allowed (.new capacity) q) :
    ∀ i c, q.calls i = some c → c.pc = .offer → c.op.item ≠ none := by
  refine h.invariant (fun q => ∀ i c, q.calls i = some c → c.pc = .offer → c.op.item ≠ none)
    (fun i c hc => absurd hc.symm (Option.some_ne_none c)) ?_
  intro q label q' hq _ hstep i c hc hpc
  rcases Queue.step_calls hstep hc with hold | ⟨-, hstart⟩ | ⟨c₀, -, hop, hdropped | hpolled⟩
  · exact hq i c hold hpc
  · exact absurd (hpc.symm.trans hstart) (by simp)
  · exact absurd (hpc.symm.trans hdropped) (by simp)
  · rw [hop]
    exact hpolled.offers hpc

theorem callsWithin_of_runs {capacity : Option ℕ} {allowed : Queue ι α → Label ι α → Prop}
    (h : Runs Queue.step allowed (.new capacity) q) : ∃ ids, CallsWithin q.calls ids := by
  refine (h.invariant (fun q => QueueInv q ∧ ∃ ids, CallsWithin q.calls ids)
    ⟨queueInv_new capacity, ∅, callsWithin_empty⟩ ?_).2
  rintro q label q' ⟨hinv, ids, hids⟩ - hstep
  obtain ⟨id, call, hchange⟩ := hinv.change hstep
  exact ⟨hinv.step hstep, insert id ids, hchange.calls ▸ hids.insert⟩

/-- **A call is held up at the lock only.** -/
theorem Queue.exists_poll (hcall : q.calls id = some call) (hlive : ¬call.pc.Over)
    (hlock : call.pc = .lockWait → q.shared.lock.holder = some id)
    (hoffer : call.pc = .offer → call.op.item ≠ none) :
    (q.step (.poll id)).isSome = true := by
  simp only [Queue.step, hcall, Option.isSome_map]
  obtain ⟨op, pc⟩ := call
  dsimp only at hlive hlock hoffer
  cases pc with
  | start => cases op <;> rfl
  | lockWait => simp [poll, hlock rfl]
  | tryLock => simp only [poll]; split <;> rfl
  | offer =>
    obtain ⟨item, hitem⟩ := Option.ne_none_iff_exists'.mp (hoffer rfl)
    simp only [poll, hitem, Option.bind_some]
    split
    · rfl
    · split <;> rfl
  | take => simp only [poll]; split <;> rfl
  | done outcome => exact absurd trivial hlive
  | dropped => exact absurd trivial hlive
  | _ => rfl

omit [DecidableEq ι] in
theorem PC.Over.place (h : pc.Over) : op.place pc ≠ .waiting ∧ op.place pc ≠ .holding := by
  unfold Op.place
  split
  · cases pc with
    | done outcome => simp
    | dropped => simp
    | _ => exact h.elim
  · simp

omit [DecidableEq ι] in
/-- The holder of the lock has not returned. -/
theorem QueueInv.call_of_holder (hinv : QueueInv q) (h : q.shared.lock.holder = some id) :
    ∃ call, q.calls id = some call ∧ ¬call.pc.Over := by
  have hplace := (hinv.logged.at_place id).of_mem_queue (mem_queue_of_holder h)
  cases hcall : q.calls id with
  | none => simp [Queue.place, hcall] at hplace
  | some call =>
    refine ⟨call, rfl, fun hover => ?_⟩
    rw [Queue.place_eq hcall] at hplace
    obtain ⟨hwaiting, hholding⟩ := PC.Over.place hover
    exact hplace.elim hwaiting hholding

omit [DecidableEq ι] in
/-- Where a call waits for the lock, somebody has it. -/
theorem QueueInv.exists_holder (hinv : QueueInv q) (hcall : q.calls id = some call)
    (hpc : call.pc = .lockWait) : ∃ j, q.shared.lock.holder = some j := by
  have hat := hinv.logged.at_place id
  have hbehind := hinv.behind id call hcall
  rw [hpc] at hbehind
  have hwaits : (call.op.receives || call.op.closes) = true := by
    rcases hbehind with hreceives | ⟨hcloses, -⟩
    · rw [hreceives, Bool.true_or]
    · rw [hcloses, Bool.or_true]
  have hplace : call.op.place .lockWait = .waiting := if_pos hwaits
  rw [Queue.place_eq hcall, hpc, hplace] at hat
  exact Option.ne_none_iff_exists'.mp
    fun hnone => List.ne_nil_of_mem hat (holder_eq_none.mp hnone)

/-! ### Everybody returns -/

/-- **Closing wakes everybody.** Let the token be cancelled in any reachable state, and let no
further calls be made. Then every run ends, whatever is dropped; and as long as a call has not
returned, it can be polled, or it waits for the lock and the holder of the lock can. -/
theorem close_wakes {capacity : Option ℕ} (h : Runs Queue.step (fun _ _ => True) (.new capacity) q)
    (hshutdown : q.shared.shutdown = true) :
    Acc (fun q' q => ∃ id, Queue.step q (.poll id) = some q' ∨ Queue.step q (.drop id) = some q')
        q ∧
      ∀ id call, q.calls id = some call → ¬call.pc.Over →
        (q.step (.poll id)).isSome = true ∨ (call.pc = .lockWait ∧
          ∃ j, q.shared.lock.holder = some j ∧ (q.step (.poll j)).isSome = true) := by
  have hinv := (queueInv_new capacity).of_runs h
  have hoffers := offers_of_runs h
  obtain ⟨ids, hids⟩ := callsWithin_of_runs h
  refine ⟨?_, fun id call hcall hlive => ?_⟩
  · refine acc_of_weight (fun q => q.shared.shutdown = true) (fun q => q.calls)
      (fun q call => call.pc.weight q.shared.channel.closed) ?_ hshutdown hids
    rintro q q' hshutdown ⟨id, hstep⟩
    obtain ⟨hstays, call, call', hcall, hcalls, hlt, hclosed⟩ :=
      Queue.weight_of_step hstep hshutdown
    exact ⟨hstays, id, call, call', hcall, hcalls, hlt, fun c => c.pc.weight_le hclosed⟩
  · by_cases hwait : call.pc = .lockWait → q.shared.lock.holder = some id
    · exact Or.inl (Queue.exists_poll hcall hlive hwait (hoffers id call hcall))
    · obtain ⟨hpc, -⟩ := Classical.not_imp.mp hwait
      obtain ⟨j, hj⟩ := hinv.exists_holder hcall hpc
      obtain ⟨c, hc, hclive⟩ := hinv.call_of_holder hj
      exact Or.inr ⟨hpc, j, hj, Queue.exists_poll hc hclive (fun _ => hj) (hoffers j c hc)⟩

/-- One `recv` waits for an item with the lock, another one for the lock, and `close` finds it
taken. -/
def wakingRun : List (Label ℕ ℕ) :=
  [Label.call 0 .recv] ++ List.replicate 4 (Label.poll 0) ++ [Label.call 1 .recv, .poll 1] ++
    [Label.call 2 .close] ++ List.replicate 3 (Label.poll 2)

def wakingQueue : Queue ℕ ℕ :=
  (runLabels Queue.step (fun _ _ => true) (.new (some 1)) wakingRun).getD (.new none)

theorem close_wakes_behind :
    wakingQueue.step (.poll 1) = none ∧
      ∃ j, wakingQueue.shared.lock.holder = some j ∧
        (wakingQueue.step (.poll j)).isSome = true := by
  have hruns : Runs Queue.step (fun _ _ => True) (.new (some 1)) wakingQueue :=
    runs_of_runLabels (fun _ _ _ => trivial)
      (show runLabels _ (fun _ _ => true) _ wakingRun = some wakingQueue from rfl)
  have hheld : wakingQueue.step (.poll 1) = none := rfl
  refine ⟨hheld, ?_⟩
  rcases (close_wakes hruns rfl).2 1 ⟨.recv, .lockWait⟩ rfl id with hpoll | ⟨-, hholder⟩
  · exact absurd hpoll (by simp [hheld])
  · exact hholder

end Queues

end Taunicorn
