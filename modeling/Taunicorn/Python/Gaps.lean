import Taunicorn.Lib.Handoff
import Taunicorn.Python.Terminal

/-!
# Gaps between the messages of a session

A `receive` that has returned has taken its message: the counter has moved on, and the guard is
disarmed. From there the message is on its way to a future, and the event loop discards it if the
future is cancelled. The observer of the future cancels the token then, but only when the loop runs
its callback. Another `receive` may have taken the next message before that, or take it until then,
and its caller sees a gap.

## Main results

* `SessionInv.took_or_waited` — a step takes at most one message, and the next one
* `no_gap_of_careful` — when there is no gap
* `discarded_receive_gap` — a gap
-/

namespace Taunicorn

namespace Secure

open Security StreamProg

variable {ι : Type}

/-! ### The messages taken -/

/-- The call that returned a message, and the sequence number. -/
def Entry.receipt : Entry ι → Option (ι × UInt64)
  | .received id sequence => some (id, sequence)
  | _ => none

/-- The messages that calls of `receive` have returned, in the order they were taken. -/
def SecureSession.receipts (s : SecureSession ι) : List (ι × UInt64) :=
  s.log.filterMap Entry.receipt

/-- The number of the message that the session expects. -/
def SecureSession.expected (s : SecureSession ι) : UInt64 := s.inner.receiveState.sequence

theorem receipts_note (s : SecureSession ι) (l : List (Entry ι)) :
    (s.note l).receipts = s.receipts ++ (SecureSession.note { s with log := [] } l).receipts := by
  simp only [SecureSession.receipts, SecureSession.note, List.filterMap_append, List.nil_append]

theorem receipts_note_entries {α : Type} (s : SecureSession ι) (r : Resumed Error Event α) :
    (s.note (entries r)).receipts = s.receipts := by
  rw [receipts_note]
  simp only [SecureSession.receipts, SecureSession.note, entries, List.nil_append,
    List.filterMap_append, List.filterMap_map]
  have hcalled : r.events.filterMap (Entry.receipt ∘ (Entry.called : Event → Entry ι)) = [] :=
    List.filterMap_eq_nil_iff.mpr fun _ _ => rfl
  rw [hcalled]
  split <;> simp [Entry.receipt]

variable [DecidableEq ι]

@[simp] theorem leave_receipts (s : SecureSession ι) (id : ι) (op : Op) (pc : PC) :
    (s.leave id op pc).receipts = s.receipts := by
  rw [SecureSession.receipts, leave_log, SecureSession.receipts]

@[simp] theorem interrupt_receipts (s : SecureSession ι) (id : ι) (op : Op) (pc : PC) :
    (s.interrupt id op pc).receipts = s.receipts := by
  rw [SecureSession.receipts, interrupt_log, List.filterMap_append]
  exact List.append_nil _

@[simp] theorem leave_expected (s : SecureSession ι) (id : ι) (op : Op) (pc : PC) :
    (s.leave id op pc).expected = s.expected := by
  rw [SecureSession.expected, leave_inner, SecureSession.expected]

/-- From `s` to `s'` the call `id` has taken the message that was expected. -/
structure Took (s s' : SecureSession ι) (id : ι) : Prop where
  receipts : s'.receipts = s.receipts ++ [(id, s.expected)]
  opened : s.cancel = false
  expected : checkedSucc s.expected = some s'.expected
  running : ∀ op outcome, s.calls id ≠ some ⟨op, .done outcome⟩
  call : ∃ plaintext, s'.calls id = some ⟨.receive, .done (.ok (some plaintext))⟩

/-- From `s` to `s'` no message has been taken. -/
structure Waited (s s' : SecureSession ι) : Prop where
  receipts : s'.receipts = s.receipts
  opened : s'.cancel = false → s.cancel = false
  expected : s'.cancel = false → s'.expected = s.expected

variable {cr : Crypto} {c : SecureConnection} {s s' : SecureSession ι} {id : ι} {op : Op}
  {answers : List (Answer Error)}

theorem waited_runSend (s : SecureSession ι) (id : ι) (op : Op) (rest : Prog DirectionState)
    (answers : List (Answer Error)) : Waited s (s.runSend id op rest answers) := by
  rcases runSend_cases s id op rest answers with ⟨state, -, heq⟩ | ⟨e, -, heq⟩ | ⟨-, heq⟩
  · rw [heq]
    refine ⟨?_, ?_, fun _ => leave_expected ..⟩
    · rw [leave_receipts]
      change ((s.note _).note _).receipts = _
      rw [receipts_note, receipts_note_entries]
      exact List.append_nil _
    · rw [leave_cancel]
      exact fun h => h
  · rw [heq]
    refine ⟨?_, fun h => ?_, fun h => ?_⟩
    · rw [interrupt_receipts, receipts_note_entries]
    · exact absurd ((interrupt_cancel ..).symm.trans h) (by simp)
    · exact absurd ((interrupt_cancel ..).symm.trans h) (by simp)
  · rw [heq]
    exact ⟨receipts_note_entries .., fun h => h, fun _ => rfl⟩

/-- One poll of the native `receive` takes the message that is expected, or none. -/
theorem SessionInv.took_or_waited_receive (hinv : SessionInv cr c s) (hcancel : s.cancel = false)
    {rest : Prog (List UInt8 × DirectionState)} (hcall : s.calls id = some ⟨op, .receiving rest⟩ ∨
      (s.calls id = some ⟨op, .lock⟩ ∧ op = .receive ∧
        rest = Security.receive cr s.inner.transcriptHash s.inner.receiveState)) :
    Took s (s.runReceive id op rest answers) id ∨ Waited s (s.runReceive id op rest answers) := by
  obtain ⟨pc, log, -, -, hreceives, halways⟩ := hinv.at_receive hcall
  have hop : op = .receive := by
    cases op with
    | send plaintext => exact absurd hreceives (by simp [Op.sends])
    | receive => rfl
  subst hop
  have hpoint := (halways.steps (resume_steps rest answers)).here
  have hstopped : ∀ {x : SecureSession ι} {pc : PC}, x.receipts = s.receipts →
      Waited s (x.interrupt id .receive pc) := by
    intro x pc hx
    refine ⟨?_, fun h => ?_, fun h => ?_⟩
    · rw [interrupt_receipts, hx]
    · exact absurd ((interrupt_cancel ..).symm.trans h) (by simp)
    · exact absurd ((interrupt_cancel ..).symm.trans h) (by simp)
  rcases runReceive_cases s id .receive rest answers with
    ⟨plaintext, state, hrest, heq | ⟨e, heq⟩⟩ | ⟨e, hrest, heq⟩ | ⟨hsuspended, heq⟩
  · obtain ⟨next, hnext, rfl⟩ := hpoint.2 plaintext state hrest
    rw [heq]
    refine Or.inl ⟨?_, hcancel, ?_, fun op outcome hdone => ?_, plaintext, ?_⟩
    · rw [leave_receipts, receipts_note]
      change (s.note _).receipts ++ _ = _
      rw [receipts_note_entries]
      rfl
    · rw [leave_expected]
      exact hnext
    · rcases hcall with hcall | ⟨hcall, -⟩
      · exact absurd (hcall.symm.trans hdone) (by simp)
      · exact absurd (hcall.symm.trans hdone) (by simp)
    · rw [leave_calls]
      exact Function.update_self ..
  · rw [heq]
    exact Or.inr (hstopped (receipts_note_entries ..))
  · rw [heq]
    exact Or.inr (hstopped (receipts_note_entries ..))
  · rw [heq]
    exact Or.inr ⟨receipts_note_entries .., fun h => h, fun _ => rfl⟩

theorem Moved.took_or_waited (hinv : SessionInv cr c s) (h : Moved cr s s') :
    (∃ id, Took s s' id) ∨ Waited s s' := by
  cases h with
  | called => exact Or.inr ⟨rfl, fun h => h, fun _ => rfl⟩
  | turnedAway => exact Or.inr ⟨rfl, fun h => h, fun _ => rfl⟩
  | requested id op _ hopen =>
    refine Or.inr ⟨?_, fun _ => hopen, fun _ => ?_⟩
    · rw [SecureSession.receipts, setGate_log]
      rfl
    · rw [SecureSession.expected, setGate_inner]
      rfl
  | withdrew id op pc _ _ =>
    refine Or.inr ⟨leave_receipts .., fun h => ?_, fun _ => leave_expected ..⟩
    rwa [leave_cancel] at h
  | entered => exact Or.inr ⟨rfl, fun h => h, fun _ => rfl⟩
  | sends id op rest answers _ _ => exact Or.inr (waited_runSend s id op rest answers)
  | receives id op rest answers hcancel hcall =>
    exact (hinv.took_or_waited_receive hcancel hcall).imp_left fun h => ⟨id, h⟩
  | interrupted id op pc pc' _ _ _ =>
    refine Or.inr ⟨interrupt_receipts .., fun h => ?_, fun _ => leave_expected ..⟩
    exact absurd ((interrupt_cancel ..).symm.trans h) (by simp)
  | cancelled => exact Or.inr ⟨rfl, fun h => absurd h (by simp), fun _ => rfl⟩
  | connectionClosed => exact Or.inr ⟨rfl, fun h => h, fun _ => rfl⟩

/-- **A step takes the message that is expected, or none.** -/
theorem SessionInv.took_or_waited {label : Label ι} (hinv : SessionInv cr c s)
    (h : s.step cr label = some s') : (∃ id, Took s s' id) ∨ Waited s s' := by
  have hmoves := Moved.of_step h
  clear h
  induction hmoves with
  | refl => exact Or.inr ⟨rfl, fun h => h, fun _ => rfl⟩
  | single hmove => exact hmove.took_or_waited hinv
  | @head s mid s' hmove hlog hinner hcancel _ ih =>
    have hreceipts : mid.receipts = s.receipts := by
      rw [SecureSession.receipts, hlog, SecureSession.receipts]
    have hexpected : mid.expected = s.expected := by
      rw [SecureSession.expected, hinner, SecureSession.expected]
    rcases ih (hinv.moved hmove) with ⟨id, htook⟩ | hwaited
    · refine Or.inl ⟨id, ?_, ?_, ?_, fun op outcome hdone => ?_, htook.call⟩
      · rw [htook.receipts, hreceipts, hexpected]
      · rw [← hcancel, htook.opened]
      · rw [← hexpected, htook.expected]
      · exact htook.running op outcome (hmove.lasting hdone)
    · refine Or.inr ⟨?_, fun h => ?_, fun h => ?_⟩
      · rw [hwaited.receipts, hreceipts]
      · rw [← hcancel, hwaited.opened h]
      · rw [hwaited.expected h, hexpected]

/-- What the calls of `receive` have returned. -/
structure ReceiptInv (cr : Crypto) (c : SecureConnection) (s : SecureSession ι) : Prop where
  session : SessionInv cr c s
  /-- The messages are numbered from the first one on, -/
  numbers : s.receipts.map (fun e => e.2.toNat)
    = List.range' c.receiveState.sequence.toNat s.receipts.length
  /-- and the next one is expected, unless the session is closed. -/
  next : s.cancel = false →
    s.expected.toNat = c.receiveState.sequence.toNat + s.receipts.length
  /-- No call returns two messages, -/
  single : (s.receipts.map Prod.fst).Nodup
  /-- and what it has returned is final. -/
  results : ∀ e ∈ s.receipts, ∃ plaintext,
    s.calls e.1 = some ⟨.receive, .done (.ok (some plaintext))⟩

omit [DecidableEq ι] in
theorem receiptInv_new (cr : Crypto) (c : SecureConnection) :
    ReceiptInv cr c (.new c : SecureSession ι) where
  session := sessionInv_new cr c
  numbers := rfl
  next _ := rfl
  single := List.nodup_nil
  results _ he := absurd he List.not_mem_nil

omit [DecidableEq ι] in
theorem ReceiptInv.waited (hinv : ReceiptInv cr c s) (hsession : SessionInv cr c s')
    (hwaited : Waited s s') (hlasting : ∀ i op outcome, s.calls i = some ⟨op, .done outcome⟩ →
      s'.calls i = some ⟨op, .done outcome⟩) : ReceiptInv cr c s' := by
  refine ⟨hsession, ?_, fun hopen => ?_, ?_, fun e he => ?_⟩
  · rw [hwaited.receipts]
    exact hinv.numbers
  · rw [hwaited.receipts, hwaited.expected hopen]
    exact hinv.next (hwaited.opened hopen)
  · rw [hwaited.receipts]
    exact hinv.single
  · rw [hwaited.receipts] at he
    obtain ⟨plaintext, hcall⟩ := hinv.results e he
    exact ⟨plaintext, hlasting _ _ _ hcall⟩

omit [DecidableEq ι] in
theorem ReceiptInv.took (hinv : ReceiptInv cr c s) (hsession : SessionInv cr c s')
    (htook : Took s s' id) (hlasting : ∀ i op outcome, s.calls i = some ⟨op, .done outcome⟩ →
      s'.calls i = some ⟨op, .done outcome⟩) : ReceiptInv cr c s' := by
  have hnext := hinv.next htook.opened
  have hlen : s'.receipts.length = s.receipts.length + 1 := by
    rw [htook.receipts, List.length_append, List.length_singleton]
  refine ⟨hsession, ?_, fun _ => ?_, ?_, fun e he => ?_⟩
  · rw [hlen, List.range'_1_concat, htook.receipts, List.map_append, hinv.numbers,
      List.map_singleton, hnext]
  · rw [hlen, checkedSucc_eq_some_iff.mp htook.expected, hnext, Nat.add_assoc]
  · rw [htook.receipts, List.map_append, List.map_singleton]
    refine List.nodup_append.mpr ⟨hinv.single, List.nodup_singleton _, ?_⟩
    rintro i hi j hj rfl
    obtain ⟨e, he, rfl⟩ := List.mem_map.mp hi
    obtain ⟨plaintext, hcall⟩ := hinv.results e he
    obtain rfl : e.1 = id := List.mem_singleton.mp hj
    exact htook.running _ _ hcall
  · rw [htook.receipts] at he
    rcases List.mem_append.mp he with he | he
    · obtain ⟨plaintext, hcall⟩ := hinv.results e he
      exact ⟨plaintext, hlasting _ _ _ hcall⟩
    · obtain rfl := List.mem_singleton.mp he
      exact htook.call

theorem ReceiptInv.of_step {label : Label ι} (hinv : ReceiptInv cr c s)
    (h : s.step cr label = some s') : ReceiptInv cr c s' := by
  have hsession : SessionInv cr c s' :=
    (Moved.of_step h).keeps (SessionInv cr c) (fun _ _ hinv hmove => hinv.moved hmove) hinv.session
  have hlasting : ∀ i op outcome, s.calls i = some ⟨op, .done outcome⟩ →
      s'.calls i = some ⟨op, .done outcome⟩ := by
    intro i op outcome hdone
    exact (Moved.of_step h).keeps (fun x => x.calls i = some ⟨op, .done outcome⟩)
      (fun _ _ hdone hmove => hmove.lasting hdone) hdone
  rcases hinv.session.took_or_waited h with ⟨id, htook⟩ | hwaited
  · exact hinv.took hsession htook hlasting
  · exact hinv.waited hsession hwaited hlasting

theorem ReceiptInv.cancelled (hinv : ReceiptInv cr c s) :
    ReceiptInv cr c { s with cancel := true } :=
  hinv.of_step (show s.step cr .cancel = some _ from rfl)

omit [DecidableEq ι] in
/-- A number that has been taken is one of those before the expected one, -/
theorem ReceiptInv.lt (hinv : ReceiptInv cr c s) {e : ι × UInt64} (he : e ∈ s.receipts) :
    e.2.toNat < c.receiveState.sequence.toNat + s.receipts.length := by
  have hmem : e.2.toNat ∈ s.receipts.map (fun e => e.2.toNat) := List.mem_map_of_mem he
  rw [hinv.numbers, List.mem_range'_1] at hmem
  exact hmem.2

omit [DecidableEq ι] in
/-- and not before the first one. -/
theorem ReceiptInv.le (hinv : ReceiptInv cr c s) {e : ι × UInt64} (he : e ∈ s.receipts) :
    c.receiveState.sequence ≤ e.2 := by
  have hmem : e.2.toNat ∈ s.receipts.map (fun e => e.2.toNat) := List.mem_map_of_mem he
  rw [hinv.numbers, List.mem_range'_1] at hmem
  exact UInt64.le_iff_toNat_le.mpr hmem.1

omit [DecidableEq ι] in
/-- **The numbers have no gap.** -/
theorem ReceiptInv.exists_receipt (hinv : ReceiptInv cr c s) {e : ι × UInt64}
    (he : e ∈ s.receipts) {m : UInt64} (hm : c.receiveState.sequence ≤ m) (hlt : m < e.2) :
    ∃ i, (i, m) ∈ s.receipts := by
  have hmem : m.toNat ∈ s.receipts.map (fun e => e.2.toNat) := by
    rw [hinv.numbers, List.mem_range'_1]
    have hle := UInt64.le_iff_toNat_le.mp hm
    have hbelow := UInt64.lt_iff_toNat_lt.mp hlt
    have hlast := hinv.lt he
    omega
  obtain ⟨⟨i, m'⟩, hi, hm'⟩ := List.mem_map.mp hmem
  obtain rfl := UInt64.toNat_inj.mp hm'
  exact ⟨i, hi⟩

omit [DecidableEq ι] in
/-- A message is taken once. -/
theorem ReceiptInv.unique (hinv : ReceiptInv cr c s) {i j : ι} {m : UInt64}
    (hi : (i, m) ∈ s.receipts) (hj : (j, m) ∈ s.receipts) : i = j := by
  have hnodup : (s.receipts.map fun e => e.2.toNat).Nodup := by
    rw [hinv.numbers]
    exact List.nodup_range'
  exact (Prod.mk.inj (List.inj_on_of_nodup_map hnodup hi hj rfl)).1

/-! ### The futures -/

def Call.finished (call : Call) : Bool :=
  match call.pc with
  | .done _ => true
  | _ => false

/-- A session, the futures of its calls, and their observers. A call that is refused has no
future. -/
def sessionBridge (cr : Crypto) : Bridge (SecureSession ι) (Label ι) ι where
  step := SecureSession.step cr
  drops
    | .drop id => some id
    | _ => none
  awaits s id := (s.calls id).any fun call => !call.op.refused
  finished s id := (s.calls id).any Call.finished
  called s _ := { s with cancel := true }

omit [DecidableEq ι] in
/-- **No gap.** Before a message that has been delivered, every message from the first one on was
delivered to some caller as well, or is on its way to a future that has not been cancelled. -/
def NoGap (c : SecureConnection) (b : Bridged (SecureSession ι) ι) : Prop :=
  ∀ e ∈ b.inner.receipts, (b.futures e.1).phase = .delivered →
    ∀ m, c.receiveState.sequence ≤ m → m < e.2 →
      ∃ i, (i, m) ∈ b.inner.receipts ∧ (b.futures i).Kept

/-- The message that a step takes, if any. -/
def taken (cr : Crypto) (s : SecureSession ι) (label : Label ι) : List (ι × UInt64) :=
  ((s.step cr label).elim [] SecureSession.receipts).drop s.receipts.length

/-- **The condition.** No future is cancelled whose call has a message, unless all futures of the
calls with later messages have been; and behind a cancelled future whose call has a message, no call
takes one unless its future has been cancelled as well. -/
def Careful (cr : Crypto) (b : Bridged (SecureSession ι) ι) : BridgeLabel (Label ι) ι → Prop
  | .cancel id => ∀ e ∈ b.inner.receipts, e.1 = id → ∀ e' ∈ b.inner.receipts, e.2 < e'.2 →
      (b.futures e'.1).cancelled = true
  | .inner label => ∀ e ∈ b.inner.receipts, (b.futures e.1).cancelled = true →
      ∀ e' ∈ taken cr b.inner label, (b.futures e'.1).cancelled = true
  | _ => True

omit [DecidableEq ι] in
/-- Behind a message whose future has been cancelled the futures of all messages have been. -/
def Closed (b : Bridged (SecureSession ι) ι) : Prop :=
  ∀ e ∈ b.inner.receipts, ∀ e' ∈ b.inner.receipts, e.2 < e'.2 →
    (b.futures e.1).cancelled = true → (b.futures e'.1).cancelled = true

variable {b b' : Bridged (SecureSession ι) ι} {label : BridgeLabel (Label ι) ι}

theorem Took.taken_eq {label : Label ι} (h : Took s s' id) (hstep : s.step cr label = some s') :
    taken cr s label = [(id, s.expected)] := by
  rw [taken, hstep]
  change s'.receipts.drop _ = _
  rw [h.receipts, List.drop_left]

theorem Waited.taken_eq {label : Label ι} (h : Waited s s') (hstep : s.step cr label = some s') :
    taken cr s label = [] := by
  rw [taken, hstep]
  change s'.receipts.drop _ = _
  rw [h.receipts, List.drop_length]

omit [DecidableEq ι] in
theorem Took.lt (htook : Took s s' id) (hinv : ReceiptInv cr c s) {e : ι × UInt64}
    (he : e ∈ s.receipts) : e.2 < s.expected := by
  rw [UInt64.lt_iff_toNat_lt, hinv.next htook.opened]
  exact hinv.lt he

/-- **The step.** -/
theorem Closed.of_step (hclosed : Closed b) (hinv : ReceiptInv cr c b.inner)
    (hcareful : Careful cr b label) (h : (sessionBridge cr).bridgeStep b label = some b') :
    Closed b' := by
  have hset : ∀ {i : ι} {f : Handoff} {inner : SecureSession ι},
      inner.receipts = b.inner.receipts → f.cancelled = (b.futures i).cancelled →
      Closed { b.set i f with inner := inner } := by
    intro i f inner hreceipts hf e he e' he' hlt
    have hflag : ∀ j, ((b.set i f).futures j).cancelled = (b.futures j).cancelled := by
      intro j
      by_cases hj : j = i
      · subst hj
        rw [Bridged.set_self]
        exact hf
      · rw [Bridged.set_of_ne _ _ hj]
    dsimp only at he he' ⊢
    rw [hreceipts] at he he'
    rw [hflag, hflag]
    exact hclosed e he e' he' hlt
  cases Bridge.stepped h with
  | inner label s' hstep _ =>
    intro e he e' he' hlt hcancelled
    dsimp only at he he' hcancelled ⊢
    rcases hinv.session.took_or_waited hstep with ⟨id, htook⟩ | hwaited
    · rw [htook.receipts, List.mem_append, List.mem_singleton] at he he'
      rcases he with he | rfl
      · rcases he' with he' | rfl
        · exact hclosed e he e' he' hlt hcancelled
        · refine hcareful e he hcancelled _ ?_
          rw [htook.taken_eq hstep]
          exact List.mem_singleton_self _
      · rcases he' with he' | rfl
        · exact absurd (htook.lt hinv he') (UInt64.lt_asymm hlt)
        · exact absurd hlt (UInt64.lt_irrefl _)
    · rw [hwaited.receipts] at he he'
      exact hclosed e he e' he' hlt hcancelled
  | cancelled i f _ hf =>
    obtain ⟨-, -, rfl⟩ := Handoff.cancel_eq_some hf
    intro e he e' he' hlt hcancelled
    by_cases hi' : e'.1 = i
    · rw [hi', Bridged.set_self]
    · rw [Bridged.set_of_ne _ _ hi']
      by_cases hi : e.1 = i
      · exact hcareful e he hi e' he' hlt
      · rw [Bridged.set_of_ne _ _ hi] at hcancelled
        exact hclosed e he e' he' hlt hcancelled
  | told i f hf =>
    obtain ⟨-, rfl⟩ := Handoff.callback_eq_some hf
    exact hset rfl rfl
  | observed i f hf =>
    obtain ⟨-, rfl⟩ := Handoff.observe_eq_some hf
    exact hset rfl rfl
  | posted i f _ _ hf =>
    obtain ⟨-, rfl⟩ := Handoff.post_eq_some hf
    exact hset rfl rfl
  | delivered i f hf =>
    obtain ⟨-, rfl⟩ := Handoff.deliver_eq_some hf
    exact hset rfl rfl

omit [DecidableEq ι] in
theorem Closed.noGap (hclosed : Closed b) (hinv : ReceiptInv cr c b.inner)
    (hsound : ∀ i, (b.futures i).Sound) : NoGap c b := by
  intro e he hdelivered m hm hlt
  obtain ⟨i, hi⟩ := hinv.exists_receipt he hm hlt
  have hopen : (b.futures i).cancelled = false := by
    by_contra hcancelled
    have hlater := hclosed (i, m) hi e he hlt (Bool.not_eq_false _ ▸ hcancelled)
    exact absurd (hlater.symm.trans ((hsound e.1).delivered hdelivered)) (by simp)
  refine ⟨i, hi, hopen, fun hdiscarded => ?_⟩
  exact absurd (hopen.symm.trans ((hsound i).discarded hdiscarded)) (by simp)

/-! ### Every run -/

/-- A message whose future has been cancelled, and a later one whose future has not. -/
theorem ReceiptInv.gap (hinv : ReceiptInv cr c b.inner) (hsound : ∀ i, (b.futures i).Sound)
    {e e' : ι × UInt64} (he : e ∈ b.inner.receipts) (he' : e' ∈ b.inner.receipts)
    (hlt : e.2 < e'.2) (hcancelled : (b.futures e.1).cancelled = true)
    (hopen : (b.futures e'.1).cancelled = false) :
    ∃ b', Runs (sessionBridge cr).bridgeStep (fun _ _ => True) b b' ∧ ¬NoGap c b' := by
  obtain ⟨plaintext, hcall⟩ := hinv.results e' he'
  have hawaits : (sessionBridge cr).awaits b.inner e'.1 = true := by
    change (b.inner.calls e'.1).any _ = true
    rw [hcall]
    rfl
  have hfinished : (sessionBridge cr).finished b.inner e'.1 = true := by
    change (b.inner.calls e'.1).any _ = true
    rw [hcall]
    rfl
  obtain ⟨b', hruns, hinner, hdelivered, hothers⟩ :=
    Bridge.exists_delivered hawaits hfinished hopen (hsound e'.1)
  refine ⟨b', hruns, fun hno => ?_⟩
  rw [← hinner] at he he' hinv
  obtain ⟨i, hi, hkept⟩ := hno e' he' hdelivered e.2 (hinv.le he) hlt
  obtain rfl := hinv.unique hi he
  have hne : e.1 ≠ e'.1 := by
    intro hsame
    rw [hsame, hopen] at hcancelled
    exact Bool.false_ne_true hcancelled
  rw [hothers _ hne] at hkept
  exact Bool.false_ne_true (hkept.1.symm.trans hcancelled)

/-- **The condition is necessary.** Behind a step that violates it a gap can be reached. -/
theorem ReceiptInv.gap_of_careless (hinv : ReceiptInv cr c b.inner)
    (hsound : ∀ i, (b.futures i).Sound) (hcareless : ¬Careful cr b label)
    (h : (sessionBridge cr).bridgeStep b label = some b') :
    ∃ b'', Runs (sessionBridge cr).bridgeStep (fun _ _ => True) b' b'' ∧ ¬NoGap c b'' := by
  have hsound' := Bridge.sound_of_step h hsound
  cases Bridge.stepped h with
  | inner label s' hstep _ =>
    simp only [Careful, not_forall] at hcareless
    obtain ⟨e, he, hcancelled, e', he', hopen⟩ := hcareless
    rcases hinv.session.took_or_waited hstep with ⟨id, htook⟩ | hwaited
    · rw [htook.taken_eq hstep, List.mem_singleton] at he'
      subst he'
      have hreceipts := htook.receipts
      refine ReceiptInv.gap (hinv.of_step hstep) hsound' ?_ ?_ (htook.lt hinv he) hcancelled
        (Bool.eq_false_iff.mpr hopen)
      · rw [hreceipts]
        exact List.mem_append_left _ he
      · rw [hreceipts]
        exact List.mem_concat_self
    · rw [hwaited.taken_eq hstep] at he'
      exact absurd he' List.not_mem_nil
  | cancelled id f _ hf =>
    obtain ⟨-, -, rfl⟩ := Handoff.cancel_eq_some hf
    simp only [Careful, not_forall] at hcareless
    obtain ⟨e, he, rfl, e', he', hlt, hopen⟩ := hcareless
    have hne : e'.1 ≠ e.1 := by
      intro hsame
      have heq := List.inj_on_of_nodup_map hinv.single he' he hsame
      rw [heq] at hlt
      exact UInt64.lt_irrefl _ hlt
    refine ReceiptInv.gap (b := b.set e.1 _) hinv hsound' he he' hlt ?_ ?_
    · rw [Bridged.set_self]
    · rw [Bridged.set_of_ne _ _ hne]
      exact Bool.eq_false_iff.mpr hopen
  | _ => exact absurd trivial hcareless

/-- **When there is no gap.** In a run whose steps all meet the condition, every message before one
that has been delivered was delivered to some caller or is on its way to one; and behind any step
that violates the condition a gap can be reached. -/
theorem no_gap_of_careful
    (h : Runs (sessionBridge cr).bridgeStep (Careful cr) { inner := .new c } b) :
    NoGap c b ∧ ∀ label b', (sessionBridge cr).bridgeStep b label = some b' →
      ¬Careful cr b label →
      ∃ b'', Runs (sessionBridge cr).bridgeStep (fun _ _ => True) b' b'' ∧ ¬NoGap c b'' := by
  obtain ⟨hinv, hsound, hclosed⟩ := h.invariant
    (fun b => ReceiptInv cr c b.inner ∧ (∀ i, (b.futures i).Sound) ∧ Closed b)
    ⟨receiptInv_new cr c, fun _ => ⟨fun h => absurd h (by simp), fun h => absurd h (by simp)⟩,
      fun e he => absurd he List.not_mem_nil⟩
    fun b label b' hb hcareful hstep =>
      ⟨Bridge.keeps hstep (ReceiptInv cr c) (fun _ _ _ hs hstep => hs.of_step hstep)
        (fun _ _ hs => hs.cancelled) hb.1,
        Bridge.sound_of_step hstep hb.2.1, hb.2.2.of_step hb.1 hcareful hstep⟩
  exact ⟨hclosed.noGap hinv hsound,
    fun label b' hstep hcareless => hinv.gap_of_careless hsound hcareless hstep⟩

/-! Two calls of `receive` have returned the messages 1 and 2, and both results have been posted. -/

def exampleMessage (sequence : UInt64) : List UInt8 :=
  ((Security.send .transparent (exampleClient 1 1).transcriptHash
    { (exampleClient 1 1).receiveState with sequence } [7]).run []).sent

/-- One poll of a call that has its gate, and a whole message to read. -/
def exampleReceive (id : ℕ) (sequence : UInt64) : BridgeLabel (Label ℕ) ℕ :=
  .inner (.poll id [.ready, .ready, .received (.data ((exampleMessage sequence).take 4)),
    .received (.data ((exampleMessage sequence).drop 4))])

def exampleReceives : List (BridgeLabel (Label ℕ) ℕ) :=
  [.inner (.call 0 .receive), .inner (.call 1 .receive), exampleReceive 0 1, exampleReceive 1 2,
    .post 0, .post 1]

/-- The condition holds since no future of a call with a message is cancelled. -/
def careful (b : Bridged (SecureSession ℕ) ℕ) : BridgeLabel (Label ℕ) ℕ → Bool
  | .cancel id => b.inner.receipts.all fun e => e.1 ≠ id
  | .inner _ => b.inner.receipts.all fun e => !(b.futures e.1).cancelled
  | _ => true

theorem careful_of_eq_true {b : Bridged (SecureSession ℕ) ℕ} {label : BridgeLabel (Label ℕ) ℕ}
    (h : careful b label = true) : Careful .transparent b label := by
  cases label with
  | cancel id =>
    intro e he hid
    have hne := List.all_eq_true.mp h e he
    exact absurd hid (of_decide_eq_true hne)
  | inner label =>
    intro e he hcancelled
    have hopen := List.all_eq_true.mp h e he
    rw [hcancelled] at hopen
    exact absurd hopen Bool.false_ne_true
  | _ => trivial

def exampleDelivered : Option (Bridged (SecureSession ℕ) ℕ) :=
  runLabels (sessionBridge .transparent).bridgeStep careful { inner := .new (exampleClient 1 1) }
    (exampleReceives ++ [.deliver 1, .deliver 0, .inner (.call 2 .receive), .cancel 2])

theorem no_gap_delivered : ∃ b, exampleDelivered = some b ∧ b.inner.receipts = [(0, 1), (1, 2)] ∧
    (b.futures 1).phase = .delivered ∧ NoGap (exampleClient 1 1) b := by
  have hfacts : exampleDelivered.any (fun b => decide (b.inner.receipts = [(0, 1), (1, 2)] ∧
      (b.futures 1).phase = .delivered)) = true := by decide +kernel
  obtain ⟨b, hb, hfacts⟩ := (Option.any_eq_true _ _).mp hfacts
  obtain ⟨hreceipts, hdelivered⟩ := of_decide_eq_true hfacts
  have hruns : Runs (sessionBridge .transparent).bridgeStep (Careful .transparent)
      { inner := .new (exampleClient 1 1) } b :=
    runs_of_runLabels (fun _ _ h => careful_of_eq_true h) hb
  exact ⟨b, hb, hreceipts, hdelivered, (no_gap_of_careful hruns).1⟩

def exampleDiscarded : Option (Bridged (SecureSession ℕ) ℕ) :=
  runLabels (sessionBridge .transparent).bridgeStep (fun _ _ => true)
    { inner := .new (exampleClient 1 1) }
    (exampleReceives ++ [.cancel 0, .deliver 0, .deliver 1])

/-- **A gap.** The first future is cancelled behind its posted result, and the loop delivers the
second one before it runs the callbacks. -/
theorem discarded_receive_gap :
    ¬∀ b : Bridged (SecureSession ℕ) ℕ, Runs (sessionBridge .transparent).bridgeStep
      (fun _ _ => True) { inner := .new (exampleClient 1 1) } b → NoGap (exampleClient 1 1) b := by
  intro h
  have hfacts : exampleDiscarded.any (fun b => decide (b.inner.receipts = [(0, 1), (1, 2)] ∧
      (b.futures 1).phase = .delivered ∧ (b.futures 0).cancelled = true)) = true := by
    decide +kernel
  obtain ⟨b, hb, hfacts⟩ := (Option.any_eq_true _ _).mp hfacts
  obtain ⟨hreceipts, hdelivered, hcancelled⟩ := of_decide_eq_true hfacts
  have hno := h b (runs_of_runLabels (fun _ _ _ => trivial) hb)
  have hmem : ((1, 2) : ℕ × UInt64) ∈ b.inner.receipts := by
    rw [hreceipts]
    exact List.mem_cons_of_mem _ List.mem_cons_self
  obtain ⟨i, hi, hkept⟩ := hno (1, 2) hmem hdelivered 1 (by decide) (by decide)
  rw [hreceipts] at hi
  obtain rfl : i = 0 := by simpa using hi
  exact Bool.false_ne_true (hkept.1.symm.trans hcancelled)

end Secure

end Taunicorn
