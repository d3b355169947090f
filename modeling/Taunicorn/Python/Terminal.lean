import Taunicorn.Python.Session
import Taunicorn.Security.Agreement
import Taunicorn.Security.Delivery
import Taunicorn.Security.Integrity

/-!
# No nonce twice, and nothing after the first failure

A call encrypts under the number its session has come to, and the session moves on when the call
has handed the frame over. A call that ends in between leaves its number used, and it is the guard
it drops that keeps everyone else from using it again: the token is cancelled before the gate is
free.

So the numbers used are those up to the next one, and the next one itself only if a call behind the
gate is about to hand it over, or the token is cancelled.

## Main results

* `SessionInv.moved` — the numbers used
* `returns_program` — the handshake uses one number
* `session_terminal` — no nonce twice, nothing after the first failure, and the length check
-/

namespace Taunicorn

namespace Secure

open Security StreamProg FifoMutex

variable {ι : Type} [DecidableEq ι] {cr : Crypto} {s s' : SecureSession ι} {id i : ι} {op : Op}
  {pc pc' : PC} {answers : List (Answer Error)}

/-! ### What is encrypted -/

/-- The nonces of the sequence numbers from `a` up to `b`. -/
def numbered (state : DirectionState) (a b : ℕ) : List (Bytes aeadNonceSize) :=
  (List.range' a (b - a)).map fun n => makeNonce state.noncePrefix (toBeBytes (UInt64.ofNat n))

theorem numbered_succ (state : DirectionState) {a b : ℕ} (h : a ≤ b) :
    numbered state a (b + 1)
      = numbered state a b ++ [makeNonce state.noncePrefix (toBeBytes (UInt64.ofNat b))] := by
  rw [numbered, Nat.sub_add_comm h, List.range'_1_concat, List.map_append, List.map_singleton,
    Nat.add_sub_cancel' h]
  rfl

theorem numbered_nodup (state : DirectionState) {a b : ℕ} (hb : b ≤ 2 ^ 64) :
    (numbered state a b).Nodup := by
  refine List.Nodup.map_on ?_ (List.nodup_range' 1)
  intro n hn n' hn' heq
  rw [List.mem_range'_1] at hn hn'
  have hnumber := toBeBytes_injective (makeNonce_inj heq).2
  have hlt : n < 2 ^ 64 := by omega
  have hlt' : n' < 2 ^ 64 := by omega
  have hmod := congrArg UInt64.toNat hnumber
  rwa [UInt64.toNat_ofNat_of_lt' hlt, UInt64.toNat_ofNat_of_lt' hlt'] at hmod

omit [DecidableEq ι] in
/-- The call has encrypted, and is about to hand over. -/
def SecureSession.Sealing (s : SecureSession ι) (id : ι) : Prop :=
  ∃ op rest, s.calls id = some ⟨op, .sending rest⟩

omit [DecidableEq ι] in
/-- The number of the next message. -/
def SecureSession.next (s : SecureSession ι) : ℕ := s.inner.sendState.sequence.toNat

@[simp] theorem leave_next (s : SecureSession ι) (id : ι) (op : Op) (pc : PC) :
    (s.leave id op pc).next = s.next := by
  rw [SecureSession.next, leave_inner, SecureSession.next]

@[simp] theorem interrupt_next (s : SecureSession ι) (id : ι) (op : Op) (pc : PC) :
    (s.interrupt id op pc).next = s.next := leave_next ..

/-- **The invariant** of a session that starts with `c`. -/
structure SessionInv (cr : Crypto) (c : SecureConnection) (s : SecureSession ι) : Prop where
  gates : Gates s
  /-- Nothing but the counters moves. -/
  inner : s.inner
    = c.withSequences s.inner.receiveState.sequence s.inner.sendState.sequence
  sending : ∀ i op rest, s.calls i = some ⟨op, .sending rest⟩ → op.sends = true ∧
    ∃ plaintext, rest.Always (SendPoint cr c.transcriptHash s.inner.sendState plaintext)
      [sealEvent cr c.transcriptHash s.inner.sendState plaintext]
  receiving : ∀ i op rest, s.calls i = some ⟨op, .receiving rest⟩ → op.sends = false ∧
    ∃ log, rest.Always (ReceivePoint s.inner.receiveState) log
  le : c.sendState.sequence.toNat ≤ s.next
  /-- The next number has been used by a call that is about to hand over, or is lost. -/
  sealed : (encryptNonces s.events = numbered c.sendState c.sendState.sequence.toNat s.next ∧
      ∀ i, ¬s.Sealing i) ∨
    (encryptNonces s.events = numbered c.sendState c.sendState.sequence.toNat (s.next + 1) ∧
      (s.cancel = true ∨ ∃ i, s.Sealing i))

variable {c : SecureConnection}

omit [DecidableEq ι] in
theorem sessionInv_new (cr : Crypto) (c : SecureConnection) :
    SessionInv cr c (.new c : SecureSession ι) where
  gates b := by
    cases b <;> exact ⟨once_empty, fun i => ⟨List.not_mem_nil, List.not_mem_nil⟩⟩
  inner := rfl
  sending i op rest h := absurd h.symm (Option.some_ne_none _)
  receiving i op rest h := absurd h.symm (Option.some_ne_none _)
  le := le_rfl
  sealed := by
    refine Or.inl ⟨?_, ?_⟩
    · rw [numbered, show (SecureSession.new c : SecureSession ι).next
        = c.sendState.sequence.toNat from rfl, Nat.sub_self]
      rfl
    · rintro i ⟨op, rest, h⟩
      exact absurd h.symm (Option.some_ne_none _)

/-- A native call is running. -/
def PC.Running : PC → Prop
  | .sending _ => True
  | .receiving _ => True
  | _ => False

theorem not_running_done (outcome : Except Error (Option (List UInt8))) :
    ¬(PC.done outcome).Running := not_false

theorem calls_of_running {f : ι → Option Call} {op' : Op} (hpc : ¬pc.Running)
    (h : Function.update f id (some ⟨op, pc⟩) i = some ⟨op', pc'⟩) (hrunning : pc'.Running) :
    i ≠ id ∧ f i = some ⟨op', pc'⟩ := by
  by_cases hid : i = id
  · subst hid
    rw [Function.update_self, Option.some.injEq, Call.mk.injEq] at h
    rw [← h.2] at hrunning
    exact absurd hrunning hpc
  · rw [Function.update_of_ne hid] at h
    exact ⟨hid, h⟩

/-- **Frame.** A move that runs no native call. -/
theorem SessionInv.frame (hinv : SessionInv cr c s) (hgates : Gates s')
    (hcalls : s'.calls = Function.update s.calls id (some ⟨op, pc⟩)) (hpc : ¬pc.Running)
    (hinner : s'.inner = s.inner) (hevents : s'.events = s.events)
    (hcancel : s.cancel = true → s'.cancel = true) (hstops : s.Sealing id → s'.cancel = true) :
    SessionInv cr c s' := by
  have hold : ∀ i op' pc', s'.calls i = some ⟨op', pc'⟩ → pc'.Running →
      i ≠ id ∧ s.calls i = some ⟨op', pc'⟩ := by
    intro i op' pc' hi hrunning
    rw [hcalls] at hi
    exact calls_of_running hpc hi hrunning
  have hnext : s'.next = s.next := by rw [SecureSession.next, SecureSession.next, hinner]
  refine ⟨hgates, ?_, fun i op' rest hi => ?_, fun i op' rest hi => ?_, ?_, ?_⟩
  · rw [hinner]
    exact hinv.inner
  · rw [hinner]
    exact hinv.sending i op' rest (hold i op' _ hi trivial).2
  · rw [hinner]
    exact hinv.receiving i op' rest (hold i op' _ hi trivial).2
  · rw [hnext]
    exact hinv.le
  · rw [hevents, hnext]
    rcases hinv.sealed with ⟨hnonces, hnobody⟩ | ⟨hnonces, hstopped | ⟨i, hsealing⟩⟩
    · refine Or.inl ⟨hnonces, ?_⟩
      rintro i ⟨op', rest, hi⟩
      exact hnobody i ⟨op', rest, (hold i op' _ hi trivial).2⟩
    · exact Or.inr ⟨hnonces, Or.inl (hcancel hstopped)⟩
    · refine Or.inr ⟨hnonces, ?_⟩
      by_cases hid : i = id
      · exact Or.inl (hstops (hid ▸ hsealing))
      · obtain ⟨op', rest, hi⟩ := hsealing
        refine Or.inr ⟨i, op', rest, ?_⟩
        rw [hcalls, Function.update_of_ne hid]
        exact hi

omit [DecidableEq ι] in
theorem Sealing.sends (hinv : SessionInv cr c s) (h : s.Sealing i) :
    ∃ op pc, s.calls i = some ⟨op, pc⟩ ∧ op.sends = true ∧ pc.place = .holding := by
  obtain ⟨op, rest, hi⟩ := h
  exact ⟨op, _, hi, (hinv.sending i op rest hi).1, rfl⟩

omit [DecidableEq ι] in
/-- Only the call behind the gate of the senders is about to hand over. -/
theorem SessionInv.sealing_eq (hinv : SessionInv cr c s) (hcall : s.calls id = some ⟨op, pc⟩)
    (hsends : op.sends = true) (hpc : pc.place = .holding) (hsealing : s.Sealing i) : i = id := by
  obtain ⟨op', pc', hi, hsends', hplace⟩ := Sealing.sends hinv hsealing
  exact hinv.gates.unique hi hcall (hsends'.trans hsends.symm) hplace hpc

omit [DecidableEq ι] in
/-- A call in or at the native `send`: the rest of its program, and what it has encrypted. -/
theorem SessionInv.at_send (hinv : SessionInv cr c s) (hcancel : s.cancel = false)
    {rest : Prog DirectionState} (hcall : s.calls id = some ⟨op, .sending rest⟩ ∨
      (s.calls id = some ⟨op, .lock⟩ ∧ ∃ plaintext, op = .send plaintext ∧
        rest = Security.send cr s.inner.transcriptHash s.inner.sendState plaintext)) :
    ∃ pc plaintext log, s.calls id = some ⟨op, pc⟩ ∧ pc.place = .holding ∧ op.sends = true ∧
      rest.Always (SendPoint cr c.transcriptHash s.inner.sendState plaintext) log ∧
      encryptNonces s.events
        = numbered c.sendState c.sendState.sequence.toNat s.next ++ encryptNonces log := by
  have hnonce : s.inner.sendState.nonce
      = makeNonce c.sendState.noncePrefix (toBeBytes (UInt64.ofNat s.next)) := by
    rw [SecureSession.next, UInt64.ofNat_toNat, hinv.inner]
    rfl
  rcases hcall with hcall | ⟨hcall, plaintext, rfl, rfl⟩
  · obtain ⟨hsends, plaintext, halways⟩ := hinv.sending id op rest hcall
    refine ⟨_, plaintext, _, hcall, rfl, hsends, halways, ?_⟩
    rcases hinv.sealed with ⟨-, hnobody⟩ | ⟨hnonces, -⟩
    · exact absurd ⟨op, rest, hcall⟩ (hnobody id)
    · rw [hnonces, numbered_succ _ hinv.le, ← hnonce]
      rfl
  · have hhash : s.inner.transcriptHash = c.transcriptHash := by
      rw [hinv.inner]
      rfl
    refine ⟨_, plaintext, [], hcall, rfl, rfl, ?_, ?_⟩
    · rw [hhash]
      exact send_always ..
    · rcases hinv.sealed with ⟨hnonces, -⟩ | ⟨-, hstopped | ⟨i, hsealing⟩⟩
      · rw [hnonces]
        exact (List.append_nil _).symm
      · exact absurd (hcancel.symm.trans hstopped) Bool.false_ne_true
      · -- the call about to hand over is behind the gate, and so is this one
        obtain rfl := hinv.sealing_eq hcall rfl rfl hsealing
        obtain ⟨op, rest, hi⟩ := hsealing
        exact absurd (hi.symm.trans hcall) (by simp)

/-- One poll of the native `send`. -/
theorem SessionInv.runSend (hinv : SessionInv cr c s) (hcancel : s.cancel = false)
    {rest : Prog DirectionState} (hcall : s.calls id = some ⟨op, .sending rest⟩ ∨
      (s.calls id = some ⟨op, .lock⟩ ∧ ∃ plaintext, op = .send plaintext ∧
        rest = Security.send cr s.inner.transcriptHash s.inner.sendState plaintext))
    (hgates : Gates (s.runSend id op rest answers)) :
    SessionInv cr c (s.runSend id op rest answers) := by
  obtain ⟨pc, plaintext, log, hcall, hplace, hsends, halways, hnonces⟩ := hinv.at_send hcancel hcall
  have hstate : s.inner.sendState
      = { c.sendState with sequence := s.inner.sendState.sequence } := by
    rw [hinv.inner]
    rfl
  have halways' := halways.steps (resume_steps rest answers)
  have hevents : encryptNonces (s.events ++ (rest.resume answers).events)
      = numbered c.sendState c.sendState.sequence.toNat s.next
        ++ encryptNonces (log ++ (rest.resume answers).events) := by
    rw [encryptNonces_append, encryptNonces_append, hnonces, List.append_assoc]
  have hseal : encryptNonces [sealEvent cr c.transcriptHash s.inner.sendState plaintext]
      = [makeNonce c.sendState.noncePrefix (toBeBytes (UInt64.ofNat s.next))] := by
    rw [SecureSession.next, UInt64.ofNat_toNat, hstate]
    rfl
  -- nobody else is about to hand over
  have hothers : ∀ i op' rest', i ≠ id → s.calls i ≠ some ⟨op', .sending rest'⟩ := by
    intro i op' rest' hi hsending
    exact hi (hinv.sealing_eq hcall hsends hplace ⟨op', rest', hsending⟩)
  have hover : ∀ {pc' : PC}, ¬pc'.Running → ∀ i op' rest',
      Function.update s.calls id (some ⟨op, pc'⟩) i ≠ some ⟨op', .sending rest'⟩ := by
    intro pc' hpc' i op' rest' hi
    obtain ⟨hid, hold⟩ := calls_of_running hpc' hi trivial
    exact hothers i op' rest' hid hold
  have hpoint := halways'.here
  rcases runSend_cases s id op rest answers with
    ⟨state, hrest, heq⟩ | ⟨e, hrest, heq⟩ | ⟨hsuspended, heq⟩
  · rw [heq] at hgates ⊢
    rw [hrest] at hpoint
    rcases hpoint with ⟨-, -, e, hfail⟩ | ⟨-, hnot⟩ | ⟨hlog, next, hnext, hret⟩
    · exact absurd hfail (by simp)
    · exact absurd trivial hnot
    · obtain rfl := hret state rfl
      have hsucc : next.toNat = s.next + 1 := checkedSucc_eq_some_iff.mp hnext
      refine ⟨hgates, ?_, fun i op' rest' hi => ?_, fun i op' rest' hi => ?_, ?_, Or.inl ⟨?_, ?_⟩⟩
      · rw [leave_inner]
        change s.inner.withSequences _ _ = _
        rw [hinv.inner]
        rfl
      · rw [leave_calls] at hi
        exact absurd hi (hover (not_running_done _) i op' rest')
      · rw [leave_calls] at hi
        rw [leave_inner]
        exact hinv.receiving i op' rest' (calls_of_running (not_running_done _) hi trivial).2
      · rw [leave_next]
        change _ ≤ next.toNat
        rw [hsucc]
        exact hinv.le.trans (Nat.le_succ _)
      · rw [leave_events, leave_next]
        change encryptNonces (((s.note _).note [.sent id _]).events) = numbered _ _ next.toNat
        rw [events_note_silent _ _ rfl, events_note_entries, hevents, hlog, hseal, hsucc,
          numbered_succ _ hinv.le]
      · rintro i ⟨op', rest', hi⟩
        rw [leave_calls] at hi
        exact hover (not_running_done _) i op' rest' hi
  · rw [heq] at hgates ⊢
    rw [hrest] at hpoint
    refine ⟨hgates, ?_, fun i op' rest' hi => ?_, fun i op' rest' hi => ?_, ?_, ?_⟩
    · rw [interrupt_inner]
      exact hinv.inner
    · rw [interrupt_calls] at hi
      exact absurd hi (hover (not_running_done _) i op' rest')
    · rw [interrupt_calls] at hi
      rw [interrupt_inner]
      exact hinv.receiving i op' rest' (calls_of_running (not_running_done _) hi trivial).2
    · rw [interrupt_next]
      exact hinv.le
    · rw [interrupt_events, events_note_entries, hevents, interrupt_next, interrupt_cancel]
      change (_ = numbered _ _ s.next ∧ _) ∨ (_ = numbered _ _ (s.next + 1) ∧ _)
      rcases hpoint with ⟨hlog, -⟩ | ⟨-, hnot⟩ | ⟨hlog, -⟩
      · refine Or.inl ⟨?_, ?_⟩
        · rw [hlog]
          exact List.append_nil _
        · rintro i ⟨op', rest', hi⟩
          rw [interrupt_calls] at hi
          exact hover (not_running_done _) i op' rest' hi
      · exact absurd trivial hnot
      · refine Or.inr ⟨?_, Or.inl rfl⟩
        rw [hlog, hseal]
        exact (numbered_succ _ hinv.le).symm
  · rw [heq] at hgates ⊢
    have hpast : log ++ (rest.resume answers).events
        = [sealEvent cr c.transcriptHash s.inner.sendState plaintext] := by
      rcases hpoint with ⟨-, -, e, hfail⟩ | ⟨-, hnot⟩ | ⟨hlog, -⟩
      · rw [hfail] at hsuspended
        exact hsuspended.elim
      · exact absurd (resume_resting rest answers) hnot
      · exact hlog
    refine ⟨hgates, hinv.inner, fun i op' rest' hi => ?_, fun i op' rest' hi => ?_, hinv.le,
      Or.inr ⟨?_, Or.inr ⟨id, op, _, set_calls_self ..⟩⟩⟩
    · by_cases hid : i = id
      · subst hid
        rw [set_calls_self, Option.some.injEq, Call.mk.injEq, PC.sending.injEq] at hi
        obtain ⟨rfl, rfl⟩ := hi
        refine ⟨hsends, plaintext, ?_⟩
        rw [hpast] at halways'
        exact halways'
      · have hold : s.calls i = some ⟨op', .sending rest'⟩ :=
          (Function.update_of_ne hid ..).symm.trans hi
        exact absurd hold (hothers i op' rest' hid)
    · by_cases hid : i = id
      · subst hid
        rw [set_calls_self, Option.some.injEq, Call.mk.injEq] at hi
        exact absurd hi.2 (by simp)
      · have hold : s.calls i = some ⟨op', .receiving rest'⟩ :=
          (Function.update_of_ne hid ..).symm.trans hi
        exact hinv.receiving i op' rest' hold
    · change encryptNonces (s.note _).events = numbered _ _ (s.next + 1)
      rw [events_note_entries, hevents, hpast, hseal, numbered_succ _ hinv.le]

omit [DecidableEq ι] in
/-- A call in or at the native `receive`: the rest of its program. -/
theorem SessionInv.at_receive (hinv : SessionInv cr c s)
    {rest : Prog (List UInt8 × DirectionState)} (hcall : s.calls id = some ⟨op, .receiving rest⟩ ∨
      (s.calls id = some ⟨op, .lock⟩ ∧ op = .receive ∧
        rest = Security.receive cr s.inner.transcriptHash s.inner.receiveState)) :
    ∃ pc log, s.calls id = some ⟨op, pc⟩ ∧ pc.place = .holding ∧ op.sends = false ∧
      rest.Always (ReceivePoint s.inner.receiveState) log := by
  rcases hcall with hcall | ⟨hcall, rfl, rfl⟩
  · obtain ⟨hreceives, log, halways⟩ := hinv.receiving id op rest hcall
    exact ⟨_, log, hcall, rfl, hreceives, halways⟩
  · exact ⟨_, [], hcall, rfl, rfl, receive_always ..⟩

/-- **One poll of the native `receive`.** -/
theorem SessionInv.runReceive (hinv : SessionInv cr c s)
    {rest : Prog (List UInt8 × DirectionState)} (hcall : s.calls id = some ⟨op, .receiving rest⟩ ∨
      (s.calls id = some ⟨op, .lock⟩ ∧ op = .receive ∧
        rest = Security.receive cr s.inner.transcriptHash s.inner.receiveState))
    (hgates : Gates (s.runReceive id op rest answers)) :
    SessionInv cr c (s.runReceive id op rest answers) := by
  obtain ⟨pc, log, hcall, hplace, hreceives, halways⟩ := hinv.at_receive hcall
  have halways' := halways.steps (resume_steps rest answers)
  have hpoint := halways'.here
  have hsilent : encryptNonces (rest.resume answers).events = [] := by
    have hnone := hpoint.1
    rw [encryptNonces_append] at hnone
    exact (List.append_eq_nil_iff.mp hnone).2
  have hevents : encryptNonces (s.note (entries (rest.resume answers))).events
      = encryptNonces s.events := by
    rw [events_note_entries, encryptNonces_append, hsilent, List.append_nil]
  -- nobody else is in the native call
  have hothers : ∀ i op' rest', i ≠ id → s.calls i ≠ some ⟨op', .receiving rest'⟩ := by
    intro i op' rest' hi hreceiving
    have hsame := (hinv.receiving i op' rest' hreceiving).1.trans hreceives.symm
    exact hi (hinv.gates.unique hreceiving hcall hsame rfl hplace)
  -- and this one does not send
  have hself : ¬s.Sealing id := by
    rintro ⟨op', rest', hsending⟩
    have hsame := Option.some.inj (hsending.symm.trans hcall)
    have hsends := (hinv.sending id op' rest' hsending).1
    rw [(Call.mk.inj hsame).1] at hsends
    exact absurd (hreceives.symm.trans hsends) Bool.false_ne_true
  have hkeep : ∀ {x : SecureSession ι} {pc' : PC}, Gates x →
      x.calls = Function.update s.calls id (some ⟨op, pc'⟩) → (∀ rest', pc' ≠ .sending rest') →
      (∃ sequence, x.inner = s.inner.withSequences sequence s.inner.sendState.sequence) →
      encryptNonces x.events = encryptNonces s.events → (s.cancel = true → x.cancel = true) →
      (∀ rest', pc' = .receiving rest' →
        ∃ log, rest'.Always (ReceivePoint x.inner.receiveState) log) →
      SessionInv cr c x := by
    rintro x pc' hgates hx hpc' ⟨sequence, hinner⟩ hxevents hxcancel hwaits
    have hcalls : ∀ i op' rest', x.calls i = some ⟨op', .sending rest'⟩ ↔
        s.calls i = some ⟨op', .sending rest'⟩ := by
      intro i op' rest'
      rw [hx]
      by_cases hid : i = id
      · subst hid
        rw [Function.update_self, Option.some.injEq, Call.mk.injEq]
        exact iff_of_false (fun h => hpc' rest' h.2) fun h => hself ⟨op', rest', h⟩
      · rw [Function.update_of_ne hid]
    have hnext : x.next = s.next := by
      rw [SecureSession.next, hinner]
      rfl
    refine ⟨hgates, ?_, fun i op' rest' hi => ?_, fun i op' rest' hi => ?_, ?_, ?_⟩
    · rw [hinner, hinv.inner]
      rfl
    · rw [hinner]
      exact hinv.sending i op' rest' ((hcalls i op' rest').mp hi)
    · rw [hx] at hi
      by_cases hid : i = id
      · subst hid
        rw [Function.update_self, Option.some.injEq, Call.mk.injEq] at hi
        exact ⟨hi.1 ▸ hreceives, hwaits rest' hi.2⟩
      · rw [Function.update_of_ne hid] at hi
        exact absurd hi (hothers i op' rest' hid)
    · rw [hnext]
      exact hinv.le
    · rw [hxevents, hnext]
      simp only [SecureSession.Sealing, hcalls]
      exact hinv.sealed.imp_right fun h => ⟨h.1, h.2.imp_left hxcancel⟩
  have hdone : ∀ outcome rest', PC.done outcome ≠ .sending rest' := fun _ _ => by simp
  have hover : ∀ (x : SecureSession ι) outcome rest', PC.done outcome = .receiving rest' →
      ∃ log, rest'.Always (ReceivePoint x.inner.receiveState) log :=
    fun x outcome rest' h => absurd h (by simp)
  rcases runReceive_cases s id op rest answers with
    ⟨plaintext, state, hrest, heq | ⟨e, heq⟩⟩ | ⟨e, hrest, heq⟩ | ⟨hsuspended, heq⟩
  · rw [heq] at hgates ⊢
    refine hkeep hgates (leave_calls ..) (hdone _) ⟨_, leave_inner ..⟩ ?_ ?_ (hover _ _)
    · rw [leave_events, events_note_silent _ _ rfl]
      exact hevents
    · rw [leave_cancel]
      exact fun h => h
  · rw [heq] at hgates ⊢
    refine hkeep hgates (interrupt_calls ..) (hdone _) ⟨_, interrupt_inner ..⟩ ?_
      (fun _ => interrupt_cancel ..) (hover _ _)
    rw [interrupt_events]
    exact hevents
  · rw [heq] at hgates ⊢
    refine hkeep hgates (interrupt_calls ..) (hdone _)
      ⟨s.inner.receiveState.sequence, interrupt_inner ..⟩ ?_ (fun _ => interrupt_cancel ..)
      (hover _ _)
    rw [interrupt_events]
    exact hevents
  · rw [heq] at hgates ⊢
    refine hkeep hgates rfl (fun _ => by simp) ⟨s.inner.receiveState.sequence, rfl⟩ hevents
      (fun h => h) fun rest' hrest' => ?_
    obtain rfl := PC.receiving.inj hrest'
    exact ⟨_, halways'⟩

/-- **Every move keeps the invariant.** -/
theorem SessionInv.moved (hinv : SessionInv cr c s) (h : Moved cr s s') : SessionInv cr c s' := by
  have hgates := hinv.gates.moved h
  have hkept : ∀ {id op pc}, s.calls id = some ⟨op, pc⟩ → ¬pc.Running → ¬s.Sealing id := by
    rintro id op pc hcall hpc ⟨op', rest, hsending⟩
    obtain rfl := (Call.mk.inj (Option.some.inj (hcall.symm.trans hsending))).2
    exact hpc trivial
  have hnone : ∀ {id}, s.calls id = none → ¬s.Sealing id := by
    rintro id hnone ⟨op, rest, hsending⟩
    exact absurd (hnone.symm.trans hsending).symm (Option.some_ne_none _)
  have hover : ∀ {pc : PC}, pc.Over → ¬pc.Running := by
    intro pc hpc hrunning
    cases pc <;> first | exact hpc.elim | exact hrunning.elim
  cases h with
  | called id op pc hcall hpc =>
    refine hinv.frame hgates rfl ?_ rfl rfl (fun h => h) fun h => absurd h (hnone hcall)
    rcases hpc with rfl | hpc
    · exact not_false
    · exact hover hpc
  | turnedAway id op pc hcall hpc =>
    exact hinv.frame hgates rfl (hover hpc) rfl rfl (fun h => h) fun h =>
      absurd h (hkept hcall not_false)
  | requested id op hcall _ =>
    refine hinv.frame hgates (setGate_calls ..) (fun h => h) (setGate_inner ..) ?_ ?_ fun h =>
      absurd h (hkept hcall not_false)
    · rw [SecureSession.events, setGate_log]
      rfl
    · rw [setGate_cancel]
      exact fun h => h
  | withdrew id op pc hcall hpc =>
    refine hinv.frame hgates (leave_calls ..) (hover hpc) (leave_inner ..) (leave_events ..) ?_
      fun h => absurd h (hkept hcall not_false)
    rw [leave_cancel]
    exact fun h => h
  | entered id op hcall _ _ =>
    exact hinv.frame hgates rfl (fun h => h) rfl rfl (fun h => h) fun h =>
      absurd h (hkept hcall not_false)
  | sends id op rest answers hcancel hcall => exact hinv.runSend hcancel hcall hgates
  | receives id op rest answers _ hcall => exact hinv.runReceive hcall hgates
  | interrupted id op pc pc' hcall _ hpc' =>
    exact hinv.frame hgates (interrupt_calls ..) (hover hpc') (interrupt_inner ..)
      (interrupt_events ..) (fun _ => interrupt_cancel ..) fun _ => interrupt_cancel ..
  | cancelled =>
    refine ⟨hgates, hinv.inner, hinv.sending, hinv.receiving, hinv.le, ?_⟩
    exact hinv.sealed.imp_right fun h => ⟨h.1, Or.inl rfl⟩
  | connectionClosed =>
    exact ⟨hgates, hinv.inner, hinv.sending, hinv.receiving, hinv.le, hinv.sealed⟩

/-! ### The handshake -/

/-- Behind a handshake that returns one message has been encrypted, with the number 0. -/
def SealsOne (log : List Event) (connection : SecureConnection) : Prop :=
  encryptNonces log = numbered connection.sendState 0 1 ∧ connection.sendState.sequence = 1

variable {log : List Event} {plaintext : List UInt8}

/-- A `send` that returns has encrypted its message. -/
theorem returns_send (cr : Crypto) (c : SecureConnection) (plaintext : List UInt8)
    (log : List Event) : (c.send cr plaintext).Returns (fun log' c' => ∃ next,
      checkedSucc c.sendState.sequence = some next ∧
      log' = log ++ [sealEvent cr c.transcriptHash c.sendState plaintext] ∧
      c' = c.withSequences c.receiveState.sequence next) log := by
  have hsend : (Security.send cr c.transcriptHash c.sendState plaintext).Returns
      (fun log' state => ∃ next, checkedSucc c.sendState.sequence = some next ∧
        log' = log ++ [sealEvent cr c.transcriptHash c.sendState plaintext] ∧
        state = { c.sendState with sequence := next }) (log ++ []) := by
    refine (send_always ..).returns ?_
    rintro more state (⟨-, -, e, hfail⟩ | ⟨-, hnot⟩ | ⟨rfl, next, hnext, hret⟩)
    · exact absurd hfail (by simp)
    · exact absurd trivial hnot
    · exact ⟨next, hnext, rfl, hret state rfl⟩
  rw [← List.append_nil log]
  refine hsend.bind ?_
  rintro state log' ⟨next, hnext, hlog, rfl⟩ c' hc'
  refine ⟨next, hnext, ?_, (StreamProg.pure.inj hc').symm⟩
  rw [List.append_nil]
  exact hlog

/-- A `receive` that returns has encrypted nothing. -/
theorem returns_receive (cr : Crypto) (c : SecureConnection) (log : List Event) :
    (c.receive cr).Returns (fun log' r => ∃ next,
      checkedSucc c.receiveState.sequence = some next ∧
      encryptNonces log' = encryptNonces log ∧
      r.2 = c.withSequences next c.sendState.sequence) log := by
  have hreceive : (Security.receive cr c.transcriptHash c.receiveState).Returns
      (fun log' r => ∃ next, checkedSucc c.receiveState.sequence = some next ∧
        encryptNonces log' = encryptNonces log ∧
        r.2 = { c.receiveState with sequence := next }) (log ++ []) := by
    refine (receive_always ..).returns ?_
    rintro more ⟨plaintext, state⟩ ⟨hnone, hret⟩
    obtain ⟨next, hnext, hstate⟩ := hret plaintext state rfl
    refine ⟨next, hnext, ?_, hstate⟩
    rw [encryptNonces_append, hnone, List.append_nil]
  rw [← List.append_nil log]
  refine hreceive.bind ?_
  rintro ⟨plaintext, state⟩ log' ⟨next, hnext, hlog, rfl⟩ r hr
  refine ⟨next, hnext, ?_, ?_⟩
  · rw [List.append_nil]
    exact hlog
  · exact congrArg Prod.snd (StreamProg.pure.inj hr).symm

/-- A signature encrypts nothing, -/
theorem returns_sign (cr : Crypto) (key : Bytes ed25519PrivateKeySize) (message : List UInt8)
    (log : List Event) : (sign cr key message).Returns
      (fun log' _ => encryptNonces log' = encryptNonces log) log := by
  refine .note fun _ _ => ?_
  rw [encryptNonces_append]
  exact List.append_nil _

/-- and neither does one that verifies. -/
theorem returns_verifySignature (cr : Crypto) (identityPublicKey : Bytes ed25519PublicKeySize)
    (message : List UInt8) (signature : Bytes ed25519SignatureSize) (log : List Event) :
    (verifySignature cr identityPublicKey message signature).Returns
      (fun log' _ => encryptNonces log' = encryptNonces log) log := by
  rw [verifySignature]
  refine .of_silent (silent_ofExcept _) fun _ => ?_
  split_ifs
  · refine .note fun _ _ => ?_
    rw [encryptNonces_append]
    exact List.append_nil _
  · exact returns_fail _ _ _
  · exact returns_fail _ _ _

theorem returns_client (cr : Crypto) (params : Params) :
    (client cr params).Returns SealsOne [] := by
  rw [client]
  refine .of_silent (silent_ofExcept _) fun clientNonce => ?_
  refine (returns_sign ..).bind fun signature _ hsigned => ?_
  refine .of_silent (writeFrame_silent _) fun _ => .of_silent readFrame_silent fun frame => ?_
  refine .of_silent (silent_ofExcept _) fun serverHello => ?_
  split_ifs
  · exact returns_fail _ _ _
  refine (returns_verifySignature ..).bind fun _ log hverified => ?_
  dsimp only
  split_ifs
  · exact returns_fail _ _ _
  refine .of_silent (silent_ofExcept _) fun keys => .note ?_
  refine (returns_receive ..).bind ?_
  rintro ⟨received, secure⟩ log' ⟨next, hnext, hreceived, rfl⟩
  dsimp only
  split_ifs
  · exact returns_fail _ _ _
  rw [← bind_pure (SecureConnection.send _ _ _)]
  refine (returns_send ..).bind ?_
  rintro secure log'' ⟨next', hnext', rfl, rfl⟩
  intro connection hret
  obtain rfl := StreamProg.pure.inj hret
  refine ⟨?_, ?_⟩
  · rw [encryptNonces_append, hreceived, encryptNonces_append, hverified, hsigned]
    rfl
  · exact (Option.some.inj hnext').symm

theorem returns_server (cr : Crypto) (params : Params) :
    (server cr params).Returns SealsOne [] := by
  rw [server]
  refine .of_silent readFrame_silent fun frame => .of_silent (silent_ofExcept _) fun hello => ?_
  split_ifs
  · exact returns_fail _ _ _
  refine (returns_verifySignature ..).bind fun _ log hverified => ?_
  dsimp only
  refine .of_silent (silent_ofExcept _) fun serverNonce => ?_
  refine (returns_sign ..).bind fun signature _ hsigned => ?_
  refine .of_silent (writeFrame_silent _) fun _ => ?_
  split_ifs
  · exact returns_fail _ _ _
  refine .of_silent (silent_ofExcept _) fun keys => .note ?_
  refine (returns_send ..).bind ?_
  rintro secure log' ⟨next, hnext, rfl, rfl⟩
  refine (returns_receive ..).bind ?_
  rintro ⟨received, secure⟩ log'' ⟨next', hnext', hreceived, rfl⟩
  dsimp only
  split_ifs
  · exact returns_fail _ _ _
  intro connection hret
  obtain rfl := StreamProg.pure.inj hret
  refine ⟨?_, ?_⟩
  · rw [hreceived, encryptNonces_append, encryptNonces_append, hsigned, hverified]
    rfl
  · exact (Option.some.inj hnext).symm

/-- **The handshake uses one number.** -/
theorem returns_program (cr : Crypto) (role : Role) (params : Params) :
    (role.program cr params).Returns SealsOne [] := by
  cases role with
  | client => exact returns_client cr params
  | server => exact returns_server cr params

/-! ### Every run -/

theorem sessionInv_of_runs (h : Runs (SecureSession.step cr) (fun _ _ => True) (.new c) s) :
    SessionInv cr c s :=
  invariant_of_moves (SessionInv cr c) (fun _ _ hinv hmove => hinv.moved hmove)
    (sessionInv_new cr c) h

theorem numbered_append (state : DirectionState) {a b d : ℕ} (hab : a ≤ b) (hbd : b ≤ d) :
    numbered state a b ++ numbered state b d = numbered state a d := by
  have hrange := @List.range'_append_1 a (b - a) (d - b)
  rw [Nat.add_sub_cancel' hab, show b - a + (d - b) = d - a by omega] at hrange
  rw [numbered, numbered, ← List.map_append, hrange]
  rfl

omit [DecidableEq ι] in
/-- The numbers used so far are those up to some number. -/
theorem SessionInv.numbers (hinv : SessionInv cr c s) : ∃ d, c.sendState.sequence.toNat ≤ d ∧
    d ≤ 2 ^ 64 ∧ encryptNonces s.events = numbered c.sendState c.sendState.sequence.toNat d := by
  have hlt : s.next < 2 ^ 64 := s.inner.sendState.sequence.toNat_lt
  rcases hinv.sealed with ⟨hnonces, -⟩ | ⟨hnonces, -⟩
  · exact ⟨s.next, hinv.le, hlt.le, hnonces⟩
  · exact ⟨s.next + 1, hinv.le.trans (Nat.le_succ _), hlt, hnonces⟩

/-- **The check of `send`** lets through the plaintexts that have a frame. -/
theorem refused_eq_false_iff (haead : cr.AeadCorrect) (transcriptHash : Bytes transcriptHashSize)
    (state : DirectionState) (plaintext : List UInt8) : (Op.send plaintext).refused = false ↔
      ∃ bytes, IsFrameOf cr transcriptHash state plaintext bytes := by
  have hrefused : (Op.send plaintext).refused = false ↔ plaintext.length ≤ maxPlaintextSize := by
    rw [Op.refused, decide_eq_false_iff_not, not_lt]
  rw [hrefused]
  constructor
  · exact exists_isFrameOf haead transcriptHash state
  · rintro ⟨bytes, ciphertext, hciphertext, hframe⟩
    have hlen := haead.length_encrypt _ _ _ _ _ hciphertext
    obtain ⟨-, hle, -⟩ := frame_eq_ok hframe
    rw [length_encryptedFrame, hlen] at hle
    change 9 + (plaintext.length + 16) ≤ 67108864 at hle
    change plaintext.length ≤ 67108839
    omega

/-- **A session is terminal after its first failure and uses no nonce twice.** It starts behind the
handshake of either role. Over the whole life of a session the calls of `encrypt`, those of the
handshake included, have used the sequence numbers from 0 up to some number, each once. Behind a
failure or a drop behind a gate nothing is encrypted or handed over, and no call returns a result.
And the check of `send` lets through the plaintexts whose encrypted frame `write_frame` accepts. -/
theorem session_terminal (haead : cr.AeadCorrect) {role : Role} {params : Params}
    {handshake : List Event} {connection : SecureConnection}
    (hhandshake : Steps (role.program cr params) handshake (.pure connection))
    (hruns : Runs (SecureSession.step cr) (fun _ _ => True) (.new connection) s) :
    (∃ d, encryptNonces (handshake ++ s.events) = numbered connection.sendState 0 d) ∧
    (encryptNonces (handshake ++ s.events)).Nodup ∧
    (∀ id, .ended id ∈ s.log → ∀ s', Runs (SecureSession.step cr) (fun _ _ => True) s s' →
      OnlyFailures s s') ∧
    ∀ transcriptHash state plaintext, (Op.send plaintext).refused = false ↔
      ∃ bytes, IsFrameOf cr transcriptHash state plaintext bytes := by
  obtain ⟨hsealed, hone⟩ : SealsOne handshake connection :=
    (returns_program cr role params).steps hhandshake
  obtain ⟨d, hd, hlt, hnonces⟩ := (sessionInv_of_runs hruns).numbers
  rw [hone] at hd hnonces
  have hnumbered : encryptNonces (handshake ++ s.events) = numbered connection.sendState 0 d := by
    rw [encryptNonces_append, hsealed, hnonces]
    exact numbered_append _ (Nat.zero_le 1) hd
  refine ⟨⟨d, hnumbered⟩, ?_, fun id hid s' hafter => ?_, refused_eq_false_iff haead⟩
  · rw [hnumbered]
    exact numbered_nodup _ hlt
  · exact onlyFailures_of_runs (cancel_of_ended hruns hid) hafter

/-! One call has encrypted and is handing its frame over, another one waits at the gate; the first
is dropped, and the second gets the gate. -/

/-- What the client of the example gets from its handshake. -/
def exampleConnection : SecureConnection :=
  ((Role.client.program .transparent exampleClientParams).run
    [.ok exampleServerBytes]).result.toOption.getD (exampleClient 0 0)

theorem exampleClientRun_prog : exampleClientRun.prog = .pure exampleConnection := by
  rw [exampleClientRun, HandshakeRun.ofFeed_prog]
  exact ofExcept_of_isOk (by decide +kernel) _

def exampleRun : List (Label ℕ) :=
  [.call 0 (.send [7]), .poll 0 [.ready, .ready], .call 1 (.send [8]), .poll 1 [], .drop 0]

def exampleSession : Option (SecureSession ℕ) :=
  runLabels (SecureSession.step .transparent) (fun _ _ => true) (.new exampleConnection) exampleRun

theorem session_terminal_dropped : ∃ s s', exampleSession = some s ∧
    s.step .transparent (.poll 1 [.ready, .ready]) = some s' ∧
    (encryptNonces (exampleClientRun.log ++ s.events)).Nodup ∧ OnlyFailures s s' := by
  have hsteps : Steps (Role.client.program .transparent exampleClientParams) exampleClientRun.log
      exampleClientRun.prog := HandshakeRun.ofFeed_steps ..
  rw [exampleClientRun_prog] at hsteps
  have hsome : (exampleSession.bind fun s => s.step .transparent (.poll 1 [.ready, .ready])).isSome
      = true := by decide +kernel
  obtain ⟨s', hs'⟩ := Option.isSome_iff_exists.mp hsome
  obtain ⟨s, hs, hstep⟩ := Option.bind_eq_some_iff.mp hs'
  have hended : exampleSession.all (fun s => decide (.ended 0 ∈ s.log)) = true := by decide +kernel
  rw [hs, Option.all_some, decide_eq_true_eq] at hended
  obtain ⟨-, hnodup, hterminal, -⟩ := session_terminal Crypto.transparent_aeadCorrect hsteps
    (runs_of_runLabels (fun _ _ _ => trivial) hs)
  exact ⟨s, s', hs, hstep, hnodup, hterminal 0 hended s' (.tail .refl trivial hstep)⟩

end Secure

end Taunicorn
