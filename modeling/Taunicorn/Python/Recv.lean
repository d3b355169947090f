import Taunicorn.Lib.Handoff
import Taunicorn.Python.Queue

/-!
# The futures of a queue

`send` and `recv` return futures, the other methods of a queue return at once. A `recv` can be
dropped while it waits, and nothing is lost: an item leaves the channel with the step that fixes
the outcome. From that step until the event loop has delivered the outcome the item is nowhere but
in the call, and the queue does not observe the future as a secure connection does. If the future
is cancelled in between, or was cancelled before and the call has not been dropped yet, the item is
gone.

A receipt is a ghost: an item, the call that sent it and the call that took it from the channel.

## Main results

* `RecvInv.of_step` — what was taken is what the receives have, each item once
* `recv_keeps_items` — when nothing is lost
* `cancelled_recv_loses` — an item that is lost
-/

namespace Taunicorn

namespace Queues

variable {ι α : Type}

/-! ### Items on their way -/

def Call.finished (call : Call α) : Bool :=
  match call.pc with
  | .done _ => true
  | _ => false

/-- A queue, the futures of its calls, and the receipts. -/
abbrev Received (ι α : Type) := Bridged (Queue ι α) ι × List ((ι × α) × ι)

/-- The call has the item and its future has not been cancelled. A method without a future runs
on. -/
def OnItsWay (b : Bridged (Queue ι α) ι) (id : ι) (item : α) : Prop :=
  ∃ call, b.inner.calls id = some call ∧ call.pc.received = [item] ∧
    if call.op.isAsync then
      (b.futures id).cancelled = false ∧
        ((b.futures id).phase = .running ∨ (b.futures id).phase = .posted)
    else call.finished = false

/-- The caller has the item. -/
def Delivered (b : Bridged (Queue ι α) ι) (id : ι) (item : α) : Prop :=
  ∃ call, b.inner.calls id = some call ∧ call.pc.received = [item] ∧
    if call.op.isAsync then (b.futures id).phase = .delivered else call.finished = true

/-- **Nothing is lost.** -/
structure NothingLost (x : Received ι α) : Prop where
  /-- An item whose send succeeded is in the buffer, on its way or delivered. -/
  kept : ∀ id call item, x.1.inner.calls id = some call → call.op.item = some item →
    call.pc = .done (.ok .unit) → (id, item) ∈ x.1.inner.shared.channel.buffer ∨
      ∃ r, ((id, item), r) ∈ x.2 ∧ (OnItsWay x.1 r item ∨ Delivered x.1 r item)
  /-- No item is in two places. -/
  once : (x.2.map Prod.fst ++ x.1.inner.shared.channel.buffer).Nodup
  /-- No caller is given two items, -/
  single : (x.2.map Prod.snd).Nodup
  /-- or one that it has not taken. -/
  receipt : ∀ r item, OnItsWay x.1 r item ∨ Delivered x.1 r item → ∃ id, ((id, item), r) ∈ x.2

variable [DecidableEq ι]

/-- Nobody observes that a future is cancelled, beyond the task of the call itself. -/
def queueBridge : Bridge (Queue ι α) (Label ι α) ι where
  step := Queue.step
  drops
    | .drop id => some id
    | _ => none
  awaits q id := (q.calls id).any fun call => call.op.isAsync
  finished q id := (q.calls id).any Call.finished
  called q _ := q

omit [DecidableEq ι] in
/-- The receipt of a step. -/
def receipts (b : Bridged (Queue ι α) ι) : BridgeLabel (Label ι α) ι → List ((ι × α) × ι)
  | .inner (.poll id) =>
    match b.inner.calls id, b.inner.shared.channel.buffer with
    | some ⟨_, .take⟩, x :: _ => [(x, id)]
    | _, _ => []
  | _ => []

/-- **One step** of a queue with futures. -/
abbrev recvStep : Received ι α → BridgeLabel (Label ι α) ι → Option (Received ι α) :=
  withHistory queueBridge.bridgeStep receipts

omit [DecidableEq ι] in
def Received.new (capacity : Option ℕ) : Received ι α := ({ inner := .new capacity }, [])

omit [DecidableEq ι] in
/-- No future is cancelled while its call has an item that has not been delivered, and no call
takes an item while its future is cancelled. -/
def Careful (b : Bridged (Queue ι α) ι) : BridgeLabel (Label ι α) ι → Prop
  | .cancel id => b.inner.received id = []
  | .inner (.poll id) => receipts b (.inner (.poll id)) ≠ [] → (b.futures id).cancelled = false
  | _ => True

/-! ### What a step of the queue takes -/

variable {sh sh' : Shared ι α} {id r : ι} {op : Op α} {pc pc' : PC α} {q q' : Queue ι α}
  {b : Bridged (Queue ι α) ι} {call : Call α} {label : Label ι α} {x x' : Received ι α}
  {item : α}

/-- One step of a call takes one item or none. -/
theorem Polled.takes (h : Polled sh id op pc pc' sh') :
    (∃ e rest, pc = .take ∧ sh.channel.buffer = e :: rest ∧
        sh'.channel.taken = sh.channel.taken ++ [e] ∧ pc'.received = [e.2]) ∨
      ((pc = .take → sh.channel.buffer = []) ∧ sh'.channel.taken = sh.channel.taken ∧
        pc'.received = pc.received) := by
  cases h with
  | taken e rest hbuffer => exact Or.inl ⟨e, rest, rfl, hbuffer, rfl, rfl⟩
  | nothing hempty =>
    refine Or.inr ⟨fun _ => hempty, rfl, ?_⟩
    cases sh.channel.closed <;> cases op <;> rfl
  | entered pc hpc =>
    refine Or.inr ⟨nofun, rfl, ?_⟩
    rcases hpc with ⟨rfl, -⟩ | ⟨rfl, -⟩ | ⟨rfl, -⟩ <;> rfl
  | full pc hpc =>
    refine Or.inr ⟨nofun, rfl, ?_⟩
    rcases hpc with rfl | rfl <;> rfl
  | checked =>
    refine Or.inr ⟨nofun, rfl, ?_⟩
    cases sh.channel.closed <;> cases op <;> rfl
  | unlocked outcome =>
    refine Or.inr ⟨nofun, rfl, ?_⟩
    rcases outcome with e | _ | x | b <;> rfl
  | _ => exact Or.inr ⟨nofun, rfl, by first | rfl | (cases op <;> rfl)⟩

omit [DecidableEq ι] in
theorem receipts_poll_of_take {e : ι × α} {rest : List (ι × α)}
    (hcall : b.inner.calls id = some ⟨op, .take⟩)
    (hbuffer : b.inner.shared.channel.buffer = e :: rest) :
    receipts b (.inner (.poll id)) = [(e, id)] := by
  simp only [receipts, hcall, hbuffer]

omit [DecidableEq ι] in
theorem receipts_poll_eq_nil (hcall : b.inner.calls id = some ⟨op, pc⟩)
    (hempty : pc = .take → b.inner.shared.channel.buffer = []) :
    receipts b (.inner (.poll id)) = [] := by
  simp only [receipts, hcall]
  split
  · next hsome hcons =>
    rw [Option.some.injEq, Call.mk.injEq] at hsome
    rw [hempty hsome.2] at hcons
    exact absurd hcons (List.cons_ne_nil _ _).symm
  · rfl

omit [DecidableEq ι] in
theorem drop_channel [DecidableEq ι] (h : drop sh id call = some sh') :
    sh'.channel = sh.channel := by
  unfold drop at h
  split at h
  all_goals first
    | (obtain rfl := Option.some.inj h; rfl)
    | exact absurd h (Option.some_ne_none _).symm

/-- The step that takes an item. -/
structure Took (b : Bridged (Queue ι α) ι) (step : Label ι α) (id : ι) (e : ι × α)
    (q' : Queue ι α) : Prop where
  label : step = .poll id
  receipts : receipts b (.inner step) = [(e, id)]
  call : ∃ op, op.receives = true ∧ b.inner.calls id = some ⟨op, .take⟩
  taken : q'.shared.channel.taken = b.inner.shared.channel.taken ++ [e]
  received : q'.received = Function.update b.inner.received id [e.2]

/-- The steps that take none. -/
structure Quiet (b : Bridged (Queue ι α) ι) (step : Label ι α) (q' : Queue ι α) : Prop where
  receipts : receipts b (.inner step) = []
  taken : q'.shared.channel.taken = b.inner.shared.channel.taken
  received : q'.received = b.inner.received

omit [DecidableEq ι] in
theorem received_update [DecidableEq ι] {calls : ι → Option (Call α)} {sh : Shared ι α} :
    (Queue.mk sh (Function.update calls id (some call))).received
      = Function.update (Queue.mk sh calls).received id call.pc.received := by
  funext i
  by_cases hi : i = id
  · subst hi
    rw [Function.update_self, Queue.received_eq (Function.update_self ..)]
  · rw [Function.update_of_ne hi]
    simp only [Queue.received, Function.update_of_ne hi]

/-- **Every step of the queue is one or the other.** -/
theorem took_or_quiet (hinv : QueueInv b.inner) (h : b.inner.step label = some q') :
    (∃ id e, Took b label id e q') ∨ Quiet b label q' := by
  obtain ⟨⟨sh, calls⟩, futures⟩ := b
  cases label with
  | call id op =>
    simp only [Queue.step] at h
    split at h
    · next hnone =>
      obtain rfl := Option.some.inj h
      refine Or.inr ⟨rfl, rfl, received_update.trans (Function.update_eq_self_iff.mpr ?_)⟩
      simp only [Queue.received, hnone, PC.received]
    · exact absurd h (Option.some_ne_none _).symm
  | poll id =>
    simp only [Queue.step] at h
    split at h
    · exact absurd h (Option.some_ne_none _).symm
    · next call hcall =>
      obtain ⟨⟨pc, sh'⟩, hpoll, rfl⟩ := Option.map_eq_some_iff.mp h
      have hreceived : (Queue.mk sh calls).received id = call.pc.received := Queue.received_eq hcall
      rcases (polled_of_poll hpoll).takes with
        ⟨e, rest, hpc, hbuffer, htaken, hpc'⟩ | ⟨hempty, htaken, hpc'⟩
      · have hcall' : calls id = some ⟨call.op, .take⟩ := by rw [hcall, ← hpc]
        refine Or.inl ⟨id, e, rfl, receipts_poll_of_take hcall' hbuffer, ⟨call.op, ?_, hcall'⟩,
          htaken, received_update.trans (congrArg _ hpc')⟩
        have hbehind := hinv.behind id call hcall
        rwa [hpc] at hbehind
      · refine Or.inr ⟨receipts_poll_eq_nil hcall hempty, htaken, received_update.trans ?_⟩
        exact Function.update_eq_self_iff.mpr (hpc'.trans hreceived.symm)
  | drop id =>
    simp only [Queue.step] at h
    split at h
    · exact absurd h (Option.some_ne_none _).symm
    · next call hcall =>
      obtain ⟨sh', hdrop, rfl⟩ := Option.map_eq_some_iff.mp h
      obtain ⟨items, htaken, hitems, -⟩ := (hinv.change_dropped hcall hdrop).taken
      obtain rfl : items = [] := (List.append_eq_nil_iff.mp hitems.symm).2
      refine Or.inr ⟨rfl, ?_, received_update.trans (Function.update_eq_self_iff.mpr ?_)⟩
      · exact congrArg Channel.taken (drop_channel hdrop)
      · exact hitems.trans (List.append_nil _)

/-! ### What the receives have -/

/-- **The invariant.** -/
structure RecvInv (x : Received ι α) : Prop where
  queue : QueueInv x.1.inner
  /-- What was taken has a receipt, -/
  taken : x.2.map Prod.fst = x.1.inner.shared.channel.taken
  /-- and each receive took one item, which it has. -/
  single : (x.2.map Prod.snd).Nodup
  holds : ∀ r item, x.1.inner.received r = [item] ↔ ∃ id, ((id, item), r) ∈ x.2
  /-- Only a future of a method that returns one is cancelled or posted, -/
  awaits : ∀ r, (x.1.futures r).cancelled = true ∨ (x.1.futures r).phase ≠ .running →
    queueBridge.awaits x.1.inner r = true
  /-- and only when the call has finished is it posted. -/
  finished : ∀ r, (x.1.futures r).phase ≠ .running → queueBridge.finished x.1.inner r = true

theorem recvInv_new (capacity : Option ℕ) : RecvInv (.new capacity : Received ι α) where
  queue := queueInv_new capacity
  taken := rfl
  single := List.nodup_nil
  holds r item := by
    constructor
    · intro h
      exact absurd h.symm (List.cons_ne_nil _ _)
    · rintro ⟨id, h⟩
      exact absurd h List.not_mem_nil
  awaits r h := by rcases h with h | h <;> simp [Received.new] at h
  finished r h := absurd rfl h

omit [DecidableEq ι] in
theorem Queue.received_eq_singleton (h : q.received r ≠ []) : ∃ item, q.received r = [item] := by
  simp only [Queue.received] at h ⊢
  split at h
  · exact absurd rfl h
  · next call hcall =>
    generalize call.pc = pc at h ⊢
    unfold PC.received at h ⊢
    split at h
    · exact ⟨_, rfl⟩
    · exact ⟨_, rfl⟩
    · exact absurd rfl h

omit [DecidableEq ι] in
theorem Queue.calls_of_received (h : q.received r = [item]) :
    ∃ call, q.calls r = some call ∧ call.pc.received = [item] := by
  simp only [Queue.received] at h
  split at h
  · exact absurd h.symm (List.cons_ne_nil _ _)
  · next call hcall => exact ⟨call, hcall, h⟩

/-- A call keeps its future, and one that has finished stays so. -/
theorem QueueInv.lasting (hinv : QueueInv q) (h : q.step label = some q') (r : ι) :
    (queueBridge.awaits q r = true → queueBridge.awaits q' r = true) ∧
      (queueBridge.finished q r = true → queueBridge.finished q' r = true) := by
  obtain ⟨id, call, hchange⟩ := hinv.change h
  by_cases hr : r = id
  · subst hr
    simp only [queueBridge, hchange.calls_self, Option.any_some]
    constructor
    · intro hawaits
      obtain ⟨c, hc, hasync⟩ := (Option.any_eq_true ..).mp hawaits
      rwa [← (hchange.op c hc).1]
    · intro hfinished
      obtain ⟨c, hc, hdone⟩ := (Option.any_eq_true ..).mp hfinished
      have hlive := (hchange.op c hc).2
      unfold Call.finished at hdone
      split at hdone
      · next outcome hpc => exact absurd hpc (hlive outcome)
      · exact absurd hdone Bool.false_ne_true
  · simp only [queueBridge, hchange.calls_of_ne hr]
    exact ⟨fun h => h, fun h => h⟩

theorem RecvInv.inner {l : List ((ι × α) × ι)} (hinv : RecvInv (b, l))
    (h : b.inner.step label = some q') :
    RecvInv ({ b with inner := q' }, l ++ receipts b (.inner label)) := by
  have hlasting := hinv.queue.lasting h
  have hqueue := hinv.queue.step h
  have hawaits : ∀ r, (b.futures r).cancelled = true ∨ (b.futures r).phase ≠ .running →
      queueBridge.awaits q' r = true := fun r hr => (hlasting r).1 (hinv.awaits r hr)
  have hfinished : ∀ r, (b.futures r).phase ≠ .running → queueBridge.finished q' r = true :=
    fun r hr => (hlasting r).2 (hinv.finished r hr)
  rcases took_or_quiet hinv.queue h with ⟨id, e, htook⟩ | hquiet
  · obtain ⟨op, -, hcall⟩ := htook.call
    -- a call that has taken an item does not stand at the channel any more
    have hfresh : ∀ e, (e, id) ∉ l := by
      intro e he
      have hhas := (hinv.holds id e.2).mpr ⟨e.1, he⟩
      rw [Queue.received_eq hcall] at hhas
      exact absurd hhas.symm (List.cons_ne_nil _ _)
    rw [htook.receipts]
    refine ⟨hqueue, ?_, ?_, fun r item => ?_, hawaits, hfinished⟩
    · rw [List.map_append, hinv.taken]
      exact htook.taken.symm
    · rw [List.map_append, List.nodup_append]
      refine ⟨hinv.single, List.nodup_singleton _, ?_⟩
      rintro r hr r' hr' rfl
      obtain rfl := List.mem_singleton.mp hr'
      obtain ⟨⟨e', r'⟩, he', rfl⟩ := List.mem_map.mp hr
      exact hfresh e' he'
    · change q'.received r = [item] ↔ _
      simp only [htook.received, List.mem_append, List.mem_singleton]
      by_cases hr : r = id
      · subst hr
        rw [Function.update_self]
        constructor
        · intro heq
          exact ⟨e.1, Or.inr (by rw [← List.singleton_inj.mp heq])⟩
        · rintro ⟨i, hmem | heq⟩
          · exact absurd hmem (hfresh _)
          · rw [← (Prod.mk.inj heq).1]
      · rw [Function.update_of_ne hr, hinv.holds r item]
        refine exists_congr fun i => (or_iff_left fun heq => hr ?_).symm
        exact congrArg Prod.snd heq
  · rw [hquiet.receipts, List.append_nil]
    refine ⟨hqueue, hinv.taken.trans hquiet.taken.symm, hinv.single, fun r item => ?_, hawaits,
      hfinished⟩
    change q'.received r = [item] ↔ _
    rw [hquiet.received]
    exact hinv.holds r item

/-- The futures do not touch the queue. -/
theorem RecvInv.set {l : List ((ι × α) × ι)} (hinv : RecvInv (b, l)) {f : Handoff}
    (hawaits : f.cancelled = true ∨ f.phase ≠ .running → queueBridge.awaits b.inner id = true)
    (hfinished : f.phase ≠ .running → queueBridge.finished b.inner id = true) :
    RecvInv (b.set id f, l) := by
  refine ⟨hinv.queue, hinv.taken, hinv.single, hinv.holds, fun r hr => ?_, fun r hr => ?_⟩
  · by_cases h : r = id
    · subst h
      rw [Bridged.set_self] at hr
      exact hawaits hr
    · rw [Bridged.set_of_ne _ _ h] at hr
      exact hinv.awaits r hr
  · by_cases h : r = id
    · subst h
      rw [Bridged.set_self] at hr
      exact hfinished hr
    · rw [Bridged.set_of_ne _ _ h] at hr
      exact hinv.finished r hr

theorem RecvInv.of_step {label : BridgeLabel (Label ι α) ι} (hinv : RecvInv x)
    (h : recvStep x label = some x') : RecvInv x' := by
  obtain ⟨b, l⟩ := x
  obtain ⟨b', l'⟩ := x'
  obtain ⟨hstep, rfl⟩ := withHistory_eq_some.mp h
  cases Bridge.stepped hstep with
  | inner label q' hinner _ => exact hinv.inner hinner
  | cancelled id f hasync hf =>
    obtain ⟨-, -, rfl⟩ := Handoff.cancel_eq_some hf
    change RecvInv (_, l ++ [])
    rw [List.append_nil]
    exact hinv.set (fun _ => hasync) fun hphase => hinv.finished id hphase
  | told id f hf =>
    obtain ⟨hcancelled, rfl⟩ := Handoff.callback_eq_some hf
    change RecvInv (_, l ++ [])
    rw [List.append_nil]
    exact hinv.set (fun _ => hinv.awaits id (Or.inl hcancelled)) fun hphase =>
      hinv.finished id hphase
  | observed id f hf =>
    obtain ⟨-, rfl⟩ := Handoff.observe_eq_some hf
    change RecvInv ((b.set id _), l ++ [])
    rw [List.append_nil]
    exact hinv.set (fun hor => hinv.awaits id hor) fun hphase => hinv.finished id hphase
  | posted id f hasync hdone hf =>
    obtain ⟨-, rfl⟩ := Handoff.post_eq_some hf
    change RecvInv (_, l ++ [])
    rw [List.append_nil]
    exact hinv.set (fun _ => hasync) fun _ => hdone
  | delivered id f hf =>
    obtain ⟨hposted, rfl⟩ := Handoff.deliver_eq_some hf
    have hphase : (b.futures id).phase ≠ .running := by rw [hposted]; simp
    change RecvInv (_, l ++ [])
    rw [List.append_nil]
    exact hinv.set (fun _ => hinv.awaits id (Or.inr hphase)) fun _ => hinv.finished id hphase

/-- The outcome of a call at the channel has not been posted. -/
theorem RecvInv.running (hinv : RecvInv x) (hcall : x.1.inner.calls r = some ⟨op, .take⟩) :
    (x.1.futures r).phase = .running := by
  by_contra hphase
  have hfinished := hinv.finished r hphase
  simp only [queueBridge, hcall, Option.any_some] at hfinished
  exact Bool.false_ne_true hfinished

/-! ### When nothing is lost -/

/-- Where a call with an item has a future that has not been cancelled, nothing is lost. -/
theorem RecvInv.nothingLost (hinv : RecvInv x)
    (hkept : ∀ r, x.1.inner.received r ≠ [] → (x.1.futures r).Kept) : NothingLost x := by
  have hreceived : ∀ r item, OnItsWay x.1 r item ∨ Delivered x.1 r item →
      x.1.inner.received r = [item] := by
    rintro r item (⟨call, hcall, hitem, -⟩ | ⟨call, hcall, hitem, -⟩)
    · rw [Queue.received_eq hcall, hitem]
    · rw [Queue.received_eq hcall, hitem]
  refine ⟨fun id call item hcall hop hpc => ?_, ?_, hinv.single,
    fun r item h => (hinv.holds r item).mp (hreceived r item h)⟩
  · have haccepted := (hinv.queue.sent id item).mpr ⟨call, hcall, hop, hpc⟩
    rw [← x.1.inner.shared.channel.log_eq, List.mem_append, ← hinv.taken] at haccepted
    rcases haccepted with htaken | hbuffer
    · obtain ⟨⟨e, r⟩, hreceipt, rfl⟩ := List.mem_map.mp htaken
      have hhas := (hinv.holds r item).mpr ⟨id, hreceipt⟩
      obtain ⟨hopen, hphase⟩ := hkept r (by rw [hhas]; exact List.cons_ne_nil _ _)
      obtain ⟨reader, hreader, hitem⟩ := Queue.calls_of_received hhas
      refine Or.inr ⟨r, hreceipt, ?_⟩
      cases hasync : reader.op.isAsync with
      | true =>
        cases hat : (x.1.futures r).phase with
        | running => exact Or.inl ⟨reader, hreader, hitem, by simp [hasync, hopen, hat]⟩
        | posted => exact Or.inl ⟨reader, hreader, hitem, by simp [hasync, hopen, hat]⟩
        | delivered => exact Or.inr ⟨reader, hreader, hitem, by simp [hasync, hat]⟩
        | discarded => exact absurd hat hphase
      | false =>
        cases hdone : reader.finished with
        | true => exact Or.inr ⟨reader, hreader, hitem, by simp [hasync, hdone]⟩
        | false => exact Or.inl ⟨reader, hreader, hitem, by simp [hasync, hdone]⟩
    · exact Or.inl hbuffer
  · rw [hinv.taken, x.1.inner.shared.channel.log_eq]
    exact List.Nodup.of_map _ hinv.queue.nodup

/-- An item whose receive has a cancelled future is lost. -/
theorem RecvInv.lost (hinv : RecvInv x) (r : ι) (item : α)
    (hhas : x.1.inner.received r = [item])
    (hasync : queueBridge.awaits x.1.inner r = true)
    (hcancelled : (x.1.futures r).cancelled = true)
    (hphase : (x.1.futures r).phase ≠ .delivered) : ¬NothingLost x := by
  intro h
  obtain ⟨reader, hreader, -⟩ := Queue.calls_of_received hhas
  have hfuture : reader.op.isAsync = true := by
    simpa only [queueBridge, hreader, Option.any_some] using hasync
  obtain ⟨id, hreceipt⟩ := (hinv.holds r item).mp hhas
  have htaken : (id, item) ∈ x.2.map Prod.fst := List.mem_map_of_mem hreceipt
  obtain ⟨call, hcall, hop, hpc⟩ := (hinv.queue.sent id item).mp (by
    rw [← x.1.inner.shared.channel.log_eq, List.mem_append, ← hinv.taken]
    exact Or.inl htaken)
  have honce := List.nodup_append.mp h.once
  rcases h.kept id call item hcall hop hpc with hbuffer | ⟨r', hreceipt', hplace⟩
  · exact honce.2.2 _ htaken _ hbuffer rfl
  · -- an item has one receipt
    have hr : r' = r := by
      have hinj := List.inj_on_of_nodup_map honce.1 hreceipt' hreceipt rfl
      exact congrArg Prod.snd hinj
    subst hr
    rcases hplace with ⟨c, hc, -, hplace⟩ | ⟨c, hc, -, hplace⟩
    · obtain rfl := Option.some.inj (hreader.symm.trans hc)
      rw [if_pos hfuture] at hplace
      exact absurd (hplace.1.symm.trans hcancelled) Bool.false_ne_true
    · obtain rfl := Option.some.inj (hreader.symm.trans hc)
      rw [if_pos hfuture] at hplace
      exact hphase hplace

/-- **The condition is enough** for a step. -/
theorem RecvInv.kept_of_step {label : BridgeLabel (Label ι α) ι} (hinv : RecvInv x)
    (hkept : ∀ r, x.1.inner.received r ≠ [] → (x.1.futures r).Kept) (hcareful : Careful x.1 label)
    (h : recvStep x label = some x') :
    ∀ r, x'.1.inner.received r ≠ [] → (x'.1.futures r).Kept := by
  obtain ⟨b, l⟩ := x
  obtain ⟨b', l'⟩ := x'
  obtain ⟨hstep, -⟩ := withHistory_eq_some.mp h
  have hset : ∀ id f, (b.inner.received id ≠ [] → f.Kept) → ∀ r, b.inner.received r ≠ [] →
      ((b.set id f).futures r).Kept := by
    intro id f hf r hr
    by_cases hid : r = id
    · subst hid
      rw [Bridged.set_self]
      exact hf hr
    · rw [Bridged.set_of_ne _ _ hid]
      exact hkept r hr
  intro r hr
  cases Bridge.stepped hstep with
  | inner label q' hinner _ =>
    change q'.received r ≠ [] at hr
    rcases took_or_quiet hinv.queue hinner with ⟨id, e, htook⟩ | hquiet
    · rw [htook.received] at hr
      by_cases hid : r = id
      · subst hid
        obtain ⟨op, -, hcall⟩ := htook.call
        obtain rfl := htook.label
        refine ⟨hcareful ?_, fun hdiscarded => ?_⟩
        · rw [htook.receipts]
          exact List.cons_ne_nil _ _
        · exact absurd ((hinv.running hcall).symm.trans hdiscarded) (by simp)
      · rw [Function.update_of_ne hid] at hr
        exact hkept r hr
    · rw [hquiet.received] at hr
      exact hkept r hr
  | cancelled id f _ _ => exact hset id f (fun hne => absurd hcareful hne) r hr
  | told id f hf =>
    obtain ⟨-, rfl⟩ := Handoff.callback_eq_some hf
    exact hset id { b.futures id with told := true } (fun hne => hkept id hne) r hr
  | observed id f hf =>
    obtain ⟨-, rfl⟩ := Handoff.observe_eq_some hf
    exact hset id { b.futures id with observed := true } (fun hne => hkept id hne) r hr
  | posted id f _ _ hf => exact hset id f (fun hne => (hkept id hne).post hf) r hr
  | delivered id f hf => exact hset id f (fun hne => (hkept id hne).deliver hf) r hr

/-- **The condition is necessary** for a step. -/
theorem RecvInv.lost_of_step {label : BridgeLabel (Label ι α) ι} (hinv : RecvInv x)
    (hcareless : ¬Careful x.1 label) (h : recvStep x label = some x') : ¬NothingLost x' := by
  have hinv' := hinv.of_step h
  obtain ⟨b, l⟩ := x
  obtain ⟨b', l'⟩ := x'
  obtain ⟨hstep, -⟩ := withHistory_eq_some.mp h
  cases Bridge.stepped hstep with
  | inner label q' hinner _ =>
    rcases took_or_quiet hinv.queue hinner with ⟨id, e, htook⟩ | hquiet
    · obtain rfl := htook.label
      obtain ⟨op, hreceives, hcall⟩ := htook.call
      have hcancelled : (b.futures id).cancelled = true := by
        by_contra hopen
        exact hcareless fun _ => Bool.eq_false_iff.mpr hopen
      refine hinv'.lost id e.2 ?_ ?_ hcancelled fun hdelivered => ?_
      · change q'.received id = [e.2]
        rw [htook.received, Function.update_self]
      · have hqstep : b.inner.step (.poll id) = some q' := hinner
        exact (hinv.queue.lasting hqstep id).1 (hinv.awaits id (Or.inl hcancelled))
      · exact absurd ((hinv.running hcall).symm.trans hdelivered) (by simp)
    · refine absurd ?_ hcareless
      cases label with
      | poll id => exact fun hne => absurd hquiet.receipts hne
      | _ => trivial
  | cancelled id f hasync hf =>
    obtain ⟨-, hphase, rfl⟩ := Handoff.cancel_eq_some hf
    obtain ⟨item, hhas⟩ :=
      Queue.received_eq_singleton (show b.inner.received id ≠ [] from hcareless)
    have hself := b.set_self id { b.futures id with cancelled := true }
    refine hinv'.lost id item hhas hasync ?_ ?_
    · exact congrArg Handoff.cancelled hself
    · exact fun hdelivered => hphase ((congrArg Handoff.phase hself).symm.trans hdelivered)
  | _ => exact absurd trivial hcareless

/-- **When nothing is lost.** In a run in which no future is cancelled while its call has an item,
and no call takes an item while its future is cancelled, every item whose send succeeded is in the
buffer, on its way to a future that has not been cancelled, or delivered to one caller; and a step
that does either loses an item at once. -/
theorem recv_keeps_items {capacity : Option ℕ}
    (h : Runs recvStep (fun x => Careful x.1) (.new capacity) x) :
    NothingLost x ∧ ∀ label x', recvStep x label = some x' →
      (NothingLost x' ↔ Careful x.1 label) := by
  obtain ⟨hinv, hkept⟩ := h.invariant
    (fun x => RecvInv x ∧ ∀ r, x.1.inner.received r ≠ [] → (x.1.futures r).Kept)
    ⟨recvInv_new capacity, fun _ hr => absurd rfl hr⟩
    fun x label x' hx hcareful hstep =>
      ⟨hx.1.of_step hstep, hx.1.kept_of_step hx.2 hcareful hstep⟩
  refine ⟨hinv.nothingLost hkept, fun label x' hstep => ⟨fun hnothing => ?_, fun hcareful => ?_⟩⟩
  · by_contra hcareless
    exact hinv.lost_of_step hcareless hstep hnothing
  · exact (hinv.of_step hstep).nothingLost (hinv.kept_of_step hkept hcareful hstep)

/-! An item comes in, and a receive takes it; then its future is cancelled, and the loop discards
the result. -/

def takingRun : List (BridgeLabel (Label ℕ ℕ) ℕ) :=
  [BridgeLabel.inner (Label.call 0 (.send 7)), .inner (.call 1 .recv)] ++
    List.replicate 3 (BridgeLabel.inner (Label.poll 0)) ++
    List.replicate 5 (BridgeLabel.inner (Label.poll 1))

def taking (labels : List (BridgeLabel (Label ℕ ℕ) ℕ)) : Received ℕ ℕ :=
  (runLabels recvStep (fun _ _ => true) (.new (some 1)) (takingRun ++ labels)).getD (.new none)

/-- The condition, decided. -/
def careful (b : Bridged (Queue ℕ ℕ) ℕ) : BridgeLabel (Label ℕ ℕ) ℕ → Bool
  | .cancel id => (b.inner.received id).isEmpty
  | .inner (.poll id) => (receipts b (.inner (.poll id))).isEmpty || !(b.futures id).cancelled
  | _ => true

theorem careful_of_eq_true {b : Bridged (Queue ℕ ℕ) ℕ} (label : BridgeLabel (Label ℕ ℕ) ℕ)
    (h : careful b label = true) : Careful b label := by
  unfold careful at h
  split at h
  · exact List.isEmpty_iff.mp h
  · intro hne
    simpa [hne] using h
  · next hcancel hpoll =>
    cases label with
    | cancel id => exact absurd rfl (hcancel id)
    | inner label =>
      cases label with
      | poll id => exact absurd rfl (hpoll id)
      | _ => trivial
    | _ => trivial

theorem recv_keeps_items_delivered :
    Delivered (taking [.post 1, .deliver 1]).1 1 7 ∧
      NothingLost (taking [.post 1, .deliver 1]) := by
  have hruns : Runs recvStep (fun x => Careful x.1) (.new (some 1))
      (taking [.post 1, .deliver 1]) :=
    runs_of_runLabels (fun x label h => careful_of_eq_true label h)
      (show runLabels _ (fun x => careful x.1) _ (takingRun ++ [.post 1, .deliver 1])
        = some (taking [.post 1, .deliver 1]) from rfl)
  exact ⟨⟨_, rfl, rfl, rfl⟩, (recv_keeps_items hruns).1⟩

/-- **An item is lost.** -/
theorem cancelled_recv_loses :
    ¬∀ x : Received ℕ ℕ, Runs recvStep (fun _ _ => True) (.new (some 1)) x → NothingLost x := by
  intro h
  have hnothing := h (taking [.cancel 1, .post 1]) (runs_of_runLabels (fun _ _ _ => trivial)
    (show runLabels _ (fun _ _ => true) _ (takingRun ++ [.cancel 1, .post 1])
      = some (taking [.cancel 1, .post 1]) from rfl))
  rcases hnothing.kept 0 _ 7 rfl rfl rfl with hbuffer | ⟨r, hreceipt, hplace⟩
  · exact List.not_mem_nil hbuffer
  · obtain ⟨-, rfl⟩ := Prod.mk.inj (List.mem_singleton.mp hreceipt)
    rcases hplace with ⟨call, hcall, -, hopen⟩ | ⟨call, hcall, -, hdelivered⟩
    · obtain rfl := Option.some.inj hcall
      exact absurd hopen.1 (by decide)
    · obtain rfl := Option.some.inj hcall
      exact absurd hdelivered (by decide)

end Queues

end Taunicorn
