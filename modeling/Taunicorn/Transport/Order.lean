import Taunicorn.Transport.Calls

/-!
# The order of the bytes on the wire

Whatever the interleaving, the bytes handed to the raw stream are those of one call after the
other, in the order in which the calls were given the write gate. `WireInv` says so, and holds in
every run.

A call is torn if it has handed over bytes and has failed or was dropped: the peer sees a prefix of
its buffer. Whether anything follows such a prefix depends on the availability checks behind the
gate. `Guarded barrier` is the condition under which one of them catches it: once there is a torn
call, the check refuses whoever makes it. A failure sets `closed` before it lets go of the gate,
so runs that drop no writer meet the condition.

## Main results

* `WireInv.step` — the bytes are in gate order, in every run
* `tornInv_of_runs` — nothing follows a torn prefix, in every run that is guarded
* `TornInv.silent` — nothing is handed over any more
* `orderInv_of_runs` — both, in every run without dropped writers
-/

namespace Taunicorn

namespace Transport

open FifoMutex

variable {ι : Type}

/-! ### What the wire says of a call -/

/-- Where a call stands at the write gate. -/
def Core.place (core : Core ι) (id : ι) : Place :=
  match core.calls id with
  | none => .away
  | some call => call.op.place call.pc

/-- The bytes a call has handed over. -/
def Core.handed (core : Core ι) (id : ι) : List UInt8 :=
  match core.calls id with
  | none => []
  | some call => call.handed

/-- The bytes a call has handed over by its own account: those of a success. -/
def Core.delivered (core : Core ι) (id : ι) : List UInt8 :=
  match core.calls id with
  | none => []
  | some call =>
    match call.outcome with
    | some (.ok v) => call.op.delivered v
    | _ => []

/-- The peer sees a prefix of the call's buffer, and the call will not complete it. -/
def Call.Torn (call : Call) : Prop :=
  call.handed ≠ [] ∧ (call.pc = .dropped ∨ ∃ e, call.pc = .done (.error e))

/-- A call is torn. -/
def Core.Torn (core : Core ι) (id : ι) : Prop := ∃ call, core.calls id = some call ∧ call.Torn

variable {core core' : Core ι} {id i j : ι} {call : Call} {label : Label ι}
  {barrier : Barrier}

theorem Core.place_eq (h : core.calls id = some call) : core.place id = call.op.place call.pc := by
  simp only [place, h]

theorem Core.handed_eq (h : core.calls id = some call) : core.handed id = call.handed := by
  simp only [handed, h]

theorem Core.exists_call_of_handed (h : core.handed id ≠ []) :
    ∃ call, core.calls id = some call ∧ call.handed ≠ [] := by
  cases hcall : core.calls id with
  | none => simp [handed, hcall] at h
  | some call => exact ⟨call, rfl, by rwa [handed_eq hcall] at h⟩

theorem Call.handed_eq_nil (h : call.written = 0) : call.handed = [] := by
  rw [handed, h, List.take_zero]

theorem Call.buffer_ne_nil (h : call.handed ≠ []) : call.op.buffer ≠ [] := by
  rintro hbuffer
  exact h (by rw [handed, hbuffer, List.take_nil])

theorem Call.not_reads (h : call.op.buffer ≠ []) : call.op.reads = false := by
  cases hreads : call.op.reads with
  | false => rfl
  | true => exact absurd (call.op.buffer_eq_nil_of_reads hreads) h

theorem Call.Torn.not_live (h : call.Torn) : ¬call.pc.Live := by
  rcases h.2 with h | ⟨e, h⟩ <;> rw [h] <;> exact id

/-- A call past a barrier holds the gate. -/
theorem Call.place_of_past (hbuffer : call.op.buffer ≠ []) (h : Past barrier call.pc) :
    call.op.place call.pc = .holding := by
  have hreads := not_reads hbuffer
  unfold Op.place
  cases hpc : call.pc <;> rw [hpc] at h <;> simp_all [Past]

/-- So does a call at the raw stream. -/
theorem Call.place_of_io (hbuffer : call.op.buffer ≠ []) (h : call.pc = .io) :
    call.op.place call.pc = .holding :=
  place_of_past hbuffer (show Past .stream call.pc by rw [h]; trivial)

/-- A call that has handed over bytes, and has not let go of the gate, holds it. -/
theorem Call.place_of_handed {closed : Bool} (hsound : call.op.Sound closed call.written call.pc)
    (htyped : call.op.Typed call.pc) (hhanded : call.handed ≠ []) (hlive : call.pc.Live) :
    call.op.place call.pc = .holding := by
  have hbuffer := buffer_ne_nil hhanded
  have hreads := not_reads hbuffer
  have hwritten : call.written ≠ 0 := fun h => hhanded (handed_eq_nil h)
  unfold Op.place
  cases hpc : call.pc <;> rw [hpc] at hsound hlive htyped
  case closing stage first error =>
    cases error with
    | none => exact absurd (htyped rfl) fun hop => hbuffer (by rw [hop]; rfl)
    | some e => simp [hreads]
  case done => exact hlive.elim
  case dropped => exact hlive.elim
  all_goals first | exact absurd hsound hwritten | simp [hreads]

/-- A call that waits for the gate has handed over nothing. -/
theorem Call.handed_of_waiting {closed : Bool}
    (hsound : call.op.Sound closed call.written call.pc)
    (h : call.op.place call.pc = .waiting) : call.handed = [] := by
  unfold Op.place at h
  cases hpc : call.pc <;> rw [hpc] at hsound h
  case gateWait => exact handed_eq_nil hsound
  all_goals (simp only at h; split_ifs at h)

/-- What is known of a call at its outcome. -/
theorem Call.settled {closed : Bool} {outcome : Outcome}
    (hsound : call.op.Sound closed call.written call.pc) (h : call.outcome = some outcome) :
    call.op.Settled closed call.written outcome := by
  unfold Call.outcome at h
  cases hpc : call.pc <;> rw [hpc] at hsound h
  case unwind => exact Option.some.inj h ▸ hsound
  case done => exact Option.some.inj h ▸ hsound
  all_goals exact absurd h nofun

/-! ### The bytes are in gate order -/

/-- **The wire invariant.** -/
structure WireInv (core : Core ι) : Prop where
  once : core.shared.writeGate.Once
  at_place : ∀ id, core.shared.writeGate.At id (core.place id)
  typed : ∀ id call, core.calls id = some call → call.op.Typed call.pc
  sound : ∀ id call, core.calls id = some call →
    call.op.Sound core.shared.state.closed call.written call.pc
  token : core.shared.closeToken = true → core.shared.state.closed = true
  /-- The bytes of one call after the other, in gate order. -/
  wire : core.shared.wire = core.shared.writeGate.granted.flatMap core.handed
  mem : ∀ id, core.handed id ≠ [] → id ∈ core.shared.writeGate.granted

theorem wireInv_init : WireInv ({} : Core ι) where
  once := once_empty
  at_place _ := ⟨List.not_mem_nil, List.not_mem_nil⟩
  typed _ _ h := absurd h nofun
  sound _ _ h := absurd h nofun
  token h := absurd h nofun
  wire := rfl
  mem _ h := absurd rfl h

variable [DecidableEq ι]

/-- What a step of the connection does to the call that makes it, and through it. -/
structure Change (core : Core ι) (label : Label ι) (id : ι) (call : Call) (core' : Core ι) :
    Prop where
  calls : core'.calls = Function.update core.calls id (some call)
  /-- The call has not ended before, -/
  live : ∀ c, core.calls id = some c → c.pc.Live
  move : core.shared.writeGate.Move id (core.place id) core'.shared.writeGate
    (call.op.place call.pc)
  typed : call.op.Typed call.pc
  sound : call.op.Sound core'.shared.state.closed call.written call.pc
  closed : core.shared.state.closed = true → core'.shared.state.closed = true
  token : core'.shared.closeToken = true → core'.shared.state.closed = true
  wire : ∃ bytes, core'.shared.wire = core.shared.wire ++ bytes ∧
    call.handed = core.handed id ++ bytes ∧
    (bytes ≠ [] → ∃ c, core.calls id = some c ∧ c.op.buffer ≠ [] ∧ c.pc = .io)
  /-- and passes a barrier only where it finds it down. -/
  past : ∀ barrier, call.op.buffer ≠ [] → Past barrier call.pc → ∃ c, core.calls id = some c ∧
    c.op = call.op ∧ (Past barrier c.pc ∨ c.pc = barrier.pc ∧ barrier.up core.shared = false ∧
      ∃ choice, label = .poll id choice)

/-- What dropping a call does at the write gate. -/
theorem move_of_drop {sh : Shared ι} {effect : Effect} (h : call.drop = some effect) (id : ι) :
    sh.writeGate.Move id (call.op.place call.pc) (sh.perform id call.op effect).writeGate
      (call.op.place .dropped) := by
  cases hreads : call.op.reads with
  | true =>
    rw [Op.place_of_reads hreads, Op.place_of_reads hreads, sh.perform_of_reads id hreads]
    exact .stay _
  | false =>
    unfold Call.drop at h
    split at h
    · next hpc =>
      cases h
      simpa [hpc, Op.place, hreads, Shared.perform] using Move.giveUp
    · next hpc =>
      cases h
      simpa [hpc, Op.place, hreads, Shared.perform, Shared.onGate] using Move.leave _
    · next hpc =>
      cases h
      simpa [hpc, Op.place, hreads, Shared.perform, Shared.onGate] using Move.leave _
    · cases h

theorem WireInv.change_called (hinv : WireInv core) {op : Op} (h : core.calls id = none) :
    Change core (.call id op) id { op }
      { core with calls := Function.update core.calls id (some { op }) } where
  calls := rfl
  live _ hc := absurd (h.symm.trans hc) nofun
  move := by
    have hplace : core.place id = op.place .start := by simp [Core.place, h, Op.place]
    rw [hplace]
    exact .stay _
  typed := trivial
  sound := rfl
  closed h := h
  token := hinv.token
  wire := ⟨[], by simp, by simp [Core.handed, h, Call.handed], fun hne => absurd rfl hne⟩
  past _ _ hpast := hpast.elim

theorem WireInv.change_polled (hinv : WireInv core) {choice : Choice} {call' : Call}
    {effect : Effect} (hcall : core.calls id = some call) (hop : call'.op = call.op)
    (h : Polled core.shared id call.op call.pc call.written effect call'.pc call'.written) :
    Change core (.poll id choice) id call'
      { shared := core.shared.perform id call.op effect
        calls := Function.update core.calls id (some call') } := by
  have htyped := hinv.typed id call hcall
  have hsound := hinv.sound id call hcall
  have hclosed := h.closed hsound hinv.token
  obtain ⟨bytes, hwire, hhanded, hio⟩ := h.handed hsound
  exact {
    calls := rfl
    live := fun c hc => Option.some.inj (hcall.symm.trans hc) ▸ h.live
    move := by
      rw [Core.place_eq hcall, hop]
      exact h.move htyped
    typed := hop ▸ h.typed htyped
    sound := hop ▸ h.sound htyped hsound hinv.token
    closed := hclosed.1
    token := hclosed.2
    wire := by
      refine ⟨bytes, hwire, ?_, fun hne => ⟨call, hcall, (hio hne).2, (hio hne).1⟩⟩
      rw [Core.handed_eq hcall, Call.handed, Call.handed, hop, hhanded]
    past := by
      intro barrier hbuffer hpast
      refine ⟨call, hcall, hop.symm, ?_⟩
      exact (h.past htyped (hop ▸ hbuffer) hpast).imp_right
        fun ⟨hpc, hdown⟩ => ⟨hpc, hdown, choice, rfl⟩ }

theorem WireInv.change_dropped (hinv : WireInv core) {effect : Effect}
    (hcall : core.calls id = some call) (h : call.drop = some effect) :
    Change core (.drop id) id { call with pc := .dropped }
      { shared := core.shared.perform id call.op effect
        calls := Function.update core.calls id (some { call with pc := .dropped }) } := by
  obtain ⟨hpc, heffect⟩ := drop_eq_some h
  have hsound := hinv.sound id call hcall
  obtain ⟨hclosed, htoken⟩ := core.shared.perform_closed id call.op effect
    (by rintro v rfl; simp at heffect) (by rintro rfl; simp at heffect)
  have hwire : (core.shared.perform id call.op effect).wire = core.shared.wire := by
    rcases heffect with rfl | rfl
    · rfl
    · simp [Shared.perform]
  exact {
    calls := rfl
    live := fun c hc => by
      obtain rfl := Option.some.inj (hcall.symm.trans hc)
      rcases hpc with h | h | h <;> rw [h] <;> trivial
    move := by
      rw [Core.place_eq hcall]
      exact move_of_drop h id
    typed := trivial
    sound := by
      rcases hpc with h | h | h <;> rw [h] at hsound
      · exact Or.inl hsound
      · exact Or.inl hsound
      · exact hsound
    closed := fun h => hclosed.trans h
    token := fun h => hclosed.trans (hinv.token (htoken ▸ h))
    wire := by
      refine ⟨[], ?_, ?_, fun hne => absurd rfl hne⟩
      · rw [List.append_nil]
        exact hwire
      · rw [Core.handed_eq hcall, List.append_nil]
        rfl
    past := fun _ _ hpast => hpast.elim }

/-- **Every step is such a change.** -/
theorem WireInv.change (hinv : WireInv core) (h : core.step label = some core') :
    ∃ id call, core.Stepped label id call core' ∧ Change core label id call core' := by
  obtain ⟨id, call, hstepped⟩ := Core.stepped h
  refine ⟨id, call, hstepped, ?_⟩
  cases hstepped with
  | called id op hnone => exact hinv.change_called hnone
  | polled id choice call call' effect hcall hop hpolled =>
    exact hinv.change_polled hcall hop hpolled
  | dropped id call effect hcall hdrop => exact hinv.change_dropped hcall hdrop

/-! ### What a change leaves alone -/

theorem Change.calls_self (h : Change core label id call core') : core'.calls id = some call := by
  rw [h.calls, Function.update_self]

theorem Change.calls_of_ne (h : Change core label id call core') (hne : i ≠ id) :
    core'.calls i = core.calls i := by
  rw [h.calls, Function.update_of_ne hne]

theorem Change.place_of_ne (h : Change core label id call core') (hne : i ≠ id) :
    core'.place i = core.place i := by
  simp only [Core.place, h.calls_of_ne hne]

theorem Change.handed_of_ne (h : Change core label id call core') (hne : i ≠ id) :
    core'.handed i = core.handed i := by
  simp only [Core.handed, h.calls_of_ne hne]

theorem Change.torn_of_ne (h : Change core label id call core') (hne : i ≠ id) :
    core'.Torn i ↔ core.Torn i := by
  simp only [Core.Torn, h.calls_of_ne hne]

/-- A call that has handed over bytes makes its steps under the gate. -/
theorem Change.holder (h : Change core label id call core') (hinv : WireInv core)
    (hhanded : call.handed ≠ []) : core.shared.writeGate.holder = some id := by
  obtain ⟨bytes, -, hbytes, hio⟩ := h.wire
  have hat := hinv.at_place id
  by_cases hempty : bytes = []
  · rw [hbytes, hempty, List.append_nil] at hhanded
    obtain ⟨c, hc, hchanded⟩ := Core.exists_call_of_handed hhanded
    rwa [Core.place_eq hc, Call.place_of_handed (hinv.sound id c hc) (hinv.typed id c hc) hchanded
      (h.live c hc)] at hat
  · obtain ⟨c, hc, hbuffer, hpc⟩ := hio hempty
    rwa [Core.place_eq hc, Call.place_of_io hbuffer hpc] at hat

/-- Whoever is given the gate in a step waits for it. -/
theorem Change.granted_waiting (h : Change core label id call core') (hinv : WireInv core) :
    ∃ added, core'.shared.writeGate.granted = core.shared.writeGate.granted ++ added ∧
      ∀ k ∈ added, core'.place k = .waiting := by
  obtain ⟨added, hgranted, hadded⟩ := h.move.granted_place core.place hinv.once hinv.at_place
  refine ⟨added, hgranted, fun k hk => ?_⟩
  rw [← hadded k hk]
  by_cases hne : k = id
  · subst hne
    rw [Function.update_self, Core.place_eq h.calls_self]
  · rw [Function.update_of_ne hne, h.place_of_ne hne]

/-- It has handed over nothing. -/
theorem Change.granted (h : Change core label id call core') (hinv : WireInv core) :
    ∃ added, core'.shared.writeGate.granted = core.shared.writeGate.granted ++ added ∧
      ∀ k ∈ added, core'.handed k = [] := by
  obtain ⟨added, hgranted, hadded⟩ := h.granted_waiting hinv
  refine ⟨added, hgranted, fun k hk => ?_⟩
  have hplace := hadded k hk
  by_cases hne : k = id
  · subst hne
    rw [Core.place_eq h.calls_self] at hplace
    rw [Core.handed_eq h.calls_self]
    exact Call.handed_of_waiting h.sound hplace
  · rw [h.place_of_ne hne] at hplace
    rw [h.handed_of_ne hne]
    cases hcall : core.calls k with
    | none => simp only [Core.handed, hcall]
    | some c =>
      rw [Core.place_eq hcall] at hplace
      rw [Core.handed_eq hcall]
      exact Call.handed_of_waiting (hinv.sound k c hcall) hplace

theorem Change.handed_self (h : Change core label id call core') : ∃ bytes,
    core'.shared.wire = core.shared.wire ++ bytes ∧ core'.handed id = core.handed id ++ bytes := by
  obtain ⟨bytes, hwire, hhanded, -⟩ := h.wire
  exact ⟨bytes, hwire, by rw [Core.handed_eq h.calls_self, hhanded]⟩

omit [DecidableEq ι] in
/-- The wire is a log under the write gate. -/
theorem WireInv.logged (hinv : WireInv core) :
    core.shared.writeGate.Logged core.place core.handed core.shared.wire := by
  refine ⟨hinv.once, hinv.at_place, fun i hi => ?_, hinv.wire, hinv.mem⟩
  cases hcall : core.calls i with
  | none => simp only [Core.handed, hcall]
  | some c =>
    rw [Core.place_eq hcall] at hi
    rw [Core.handed_eq hcall]
    exact Call.handed_of_waiting (hinv.sound i c hcall) hi

/-- **The bytes stay in gate order.** -/
theorem Change.wireInv (h : Change core label id call core') (hinv : WireInv core) :
    WireInv core' := by
  have hself := Core.handed_eq h.calls_self
  have hplace := Core.place_eq h.calls_self
  obtain ⟨bytes, hwire, hbytes⟩ := h.handed_self
  have hlogged : core'.shared.writeGate.Logged core'.place core'.handed core'.shared.wire := by
    rw [hwire]
    refine hinv.logged.step (hplace ▸ h.move) (fun i hi => h.place_of_ne hi)
      (fun i hi => h.handed_of_ne hi) hbytes (fun hne => h.holder hinv ?_) fun hwaiting => ?_
    · rw [← hself, hbytes]
      exact fun hnil => hne (List.append_eq_nil_iff.mp hnil).2
    · rw [hself]
      exact Call.handed_of_waiting h.sound (hplace ▸ hwaiting)
  refine ⟨hlogged.once, hlogged.at_place, fun i c hc => ?_, fun i c hc => ?_, h.token,
    hlogged.log_eq, hlogged.mem⟩
  · by_cases hi : i = id
    · subst hi
      obtain rfl := Option.some.inj (h.calls_self.symm.trans hc)
      exact h.typed
    · exact hinv.typed i c (h.calls_of_ne hi ▸ hc)
  · by_cases hi : i = id
    · subst hi
      obtain rfl := Option.some.inj (h.calls_self.symm.trans hc)
      exact h.sound
    · exact (hinv.sound i c (h.calls_of_ne hi ▸ hc)).mono h.closed

/-- **The bytes are in gate order**, in every run. -/
theorem WireInv.step (hinv : WireInv core) (h : core.step label = some core') : WireInv core' := by
  obtain ⟨id, call, -, hchange⟩ := hinv.change h
  exact hchange.wireInv hinv

/-! ### Nothing follows a torn prefix -/

/-- **The guard.** Where a call has been torn, the check refuses whoever makes it. -/
def Guarded (barrier : Barrier) (core : Core ι) (label : Label ι) : Prop :=
  ∀ id choice call, label = .poll id choice → core.calls id = some call → call.op.buffer ≠ [] →
    call.pc = barrier.pc → (∃ i, core.Torn i) → barrier.up core.shared = true

/-- **The invariant of guarded runs.** -/
structure TornInv (barrier : Barrier) (core : Core ι) : Prop where
  /-- Once there is a torn call, nobody who could write is past the barrier, -/
  past : ∀ i, core.Torn i → ∀ j call, core.calls j = some call → call.op.buffer ≠ [] →
    ¬Past barrier call.pc
  /-- and nothing follows its bytes. -/
  last : core.shared.writeGate.granted.Pairwise fun i j => core.Torn i → core.handed j = []

omit [DecidableEq ι] in
theorem tornInv_init (barrier : Barrier) : TornInv barrier ({} : Core ι) where
  past _ h := absurd h.choose_spec.1 nofun
  last := List.Pairwise.nil

/-- A step that tears a call is one of the holder. -/
theorem Change.holder_of_torn (h : Change core label id call core') (hinv : WireInv core)
    (htorn : core'.Torn id) : core.shared.writeGate.holder = some id := by
  obtain ⟨c, hc, htorn⟩ := htorn
  obtain rfl := Option.some.inj (h.calls_self.symm.trans hc)
  exact h.holder hinv htorn.1

/-- **Guarded steps let nothing follow a torn prefix.** -/
theorem Change.tornInv (h : Change core label id call core') (hinv : WireInv core)
    (htorn : TornInv barrier core) (hguard : Guarded barrier core label) :
    TornInv barrier core' := by
  have hself := Core.handed_eq h.calls_self
  refine ⟨fun i hi j c hc hbuffer hpast => ?_, ?_⟩
  · by_cases hid : i = id
    · -- the call is torn by this step: the other one cannot hold the gate too
      subst hid
      have hne : j ≠ i := by
        rintro rfl
        obtain ⟨c', hc', htorn'⟩ := hi
        obtain rfl := Option.some.inj (hc.symm.trans hc')
        refine htorn'.not_live ?_
        cases hpc : c.pc <;> rw [hpc] at hpast <;> trivial
      have hat := hinv.at_place j
      rw [h.calls_of_ne hne] at hc
      rw [Core.place_eq hc, Call.place_of_past hbuffer hpast] at hat
      exact hne (Option.some.inj ((show _ = some j from hat).symm.trans
        (h.holder_of_torn hinv hi)))
    · rw [h.torn_of_ne hid] at hi
      by_cases hj : j = id
      · subst hj
        obtain rfl := Option.some.inj (h.calls_self.symm.trans hc)
        obtain ⟨c', hc', hop, hold | ⟨hpc, hdown, choice, hlabel⟩⟩ := h.past barrier hbuffer hpast
        · exact htorn.past i hi j c' hc' (hop ▸ hbuffer) hold
        · have hset := hguard j choice c' hlabel hc' (hop ▸ hbuffer) hpc ⟨i, hi⟩
          rw [hdown] at hset
          exact absurd hset nofun
      · exact htorn.past i hi j c (h.calls_of_ne hj ▸ hc) hbuffer hpast
  · obtain ⟨added, hgranted, hadded⟩ := h.granted hinv
    rw [hgranted, List.pairwise_append]
    refine ⟨?_, List.pairwise_of_forall_mem_list fun i _ j hj _ => hadded j hj,
      fun i _ j hj _ => hadded j hj⟩
    by_cases hhanded : call.handed = []
    · obtain ⟨bytes, -, hbytes⟩ := h.handed_self
      refine htorn.last.imp fun {i j} hij hi => ?_
      have hne : i ≠ id := by
        rintro rfl
        obtain ⟨c, hc, htorn'⟩ := hi
        obtain rfl := Option.some.inj (h.calls_self.symm.trans hc)
        exact htorn'.1 hhanded
      by_cases hj : j = id
      · rw [hj, hself, hhanded]
      · rw [h.handed_of_ne hj]
        exact hij ((h.torn_of_ne hne).mp hi)
    · -- the mover is the last who was given the gate
      obtain ⟨before, hbefore, hmem⟩ := hinv.once.holder_last (h.holder hinv hhanded)
      have hlast := htorn.last
      rw [hbefore, List.pairwise_append] at hlast ⊢
      have hne : ∀ i ∈ before, i ≠ id := fun i hi hid => hmem (hid ▸ hi)
      refine ⟨hlast.1.imp_of_mem fun {i j} hi hj hij htorn' => ?_, List.pairwise_singleton _ _,
        fun i hi j hj htorn' => ?_⟩
      · rw [h.handed_of_ne (hne j hj)]
        exact hij ((h.torn_of_ne (hne i hi)).mp htorn')
      · obtain rfl := List.mem_singleton.mp hj
        rw [h.torn_of_ne (hne i hi)] at htorn'
        obtain ⟨bytes, -, hbytes, hio⟩ := h.wire
        by_cases hempty : bytes = []
        · rw [hself, hbytes, hempty, List.append_nil]
          exact hlast.2.2 i hi j List.mem_cons_self htorn'
        · obtain ⟨c, hc, hbuffer, hpc⟩ := hio hempty
          exact (htorn.past i htorn' j c hc hbuffer (by rw [hpc]; trivial)).elim

/-- Both invariants hold in guarded runs. -/
theorem tornInv_of_runs (h : Runs Core.step (Guarded barrier) {} core) :
    WireInv core ∧ TornInv barrier core := by
  refine h.invariant (fun core => WireInv core ∧ TornInv barrier core)
    ⟨wireInv_init, tornInv_init _⟩ ?_
  rintro core label core' ⟨hinv, htorn⟩ hguard hstep
  obtain ⟨id, call, -, hchange⟩ := hinv.change hstep
  exact ⟨hchange.wireInv hinv, hchange.tornInv hinv htorn hguard⟩

/-- **Once a call is torn, nothing is handed over any more.** -/
theorem TornInv.silent (htorn : TornInv barrier core) (hinv : WireInv core) (hi : core.Torn i)
    (h : core.step label = some core') :
    core'.shared.wire = core.shared.wire ∧ ∀ j, core'.handed j = core.handed j := by
  obtain ⟨id, call, -, hchange⟩ := hinv.change h
  obtain ⟨bytes, hwire, hhanded, hio⟩ := hchange.wire
  have hempty : bytes = [] := by
    by_contra hne
    obtain ⟨c, hc, hbuffer, hpc⟩ := hio hne
    exact htorn.past i hi id c hc hbuffer (by rw [hpc]; trivial)
  rw [hempty, List.append_nil] at hwire hhanded
  refine ⟨hwire, fun j => ?_⟩
  by_cases hj : j = id
  · rw [hj, Core.handed_eq hchange.calls_self, hhanded]
  · exact hchange.handed_of_ne hj

/-- A call is torn where it is under way. -/
theorem Core.Stepped.live_of_torn (h : core.Stepped label id call core') (htorn : call.Torn) :
    ∃ c, core.calls id = some c ∧ c.pc.Live := by
  have hlive := h.calls.2
  cases h with
  | called id op hnone => exact absurd trivial htorn.not_live
  | polled id choice old _ effect hcall _ _ => exact ⟨old, hcall, (hlive old hcall).1⟩
  | dropped id old effect hcall _ => exact ⟨old, hcall, (hlive old hcall).1⟩

/-- A torn call stays torn. -/
theorem Core.Stepped.torn (h : core.Stepped label id call core') (hi : core.Torn i) :
    core'.Torn i := by
  obtain ⟨c, hc, htorn⟩ := hi
  obtain ⟨hcalls, hlive⟩ := h.calls
  have hne : i ≠ id := fun hid => htorn.not_live (hlive c (hid ▸ hc)).1
  exact ⟨c, by rw [hcalls, Function.update_of_ne hne, hc], htorn⟩

/-! ### Runs without dropped writers -/

/-- No call with bytes to hand over was dropped. -/
def Undropped (core : Core ι) : Prop :=
  ∀ id call, core.calls id = some call → call.op.buffer ≠ [] → call.pc ≠ .dropped

theorem Core.Stepped.undropped (h : core.Stepped label id call core')
    (hkeeps : KeepsWriters core label) (hundropped : Undropped core) : Undropped core' := by
  obtain ⟨hcalls, -⟩ := h.calls
  intro i c hc hbuffer
  rw [hcalls] at hc
  by_cases hi : i = id
  · subst hi
    rw [Function.update_self, Option.some.injEq] at hc
    subst hc
    cases h with
    | called id op _ => exact nofun
    | polled id choice call call' effect _ _ hpolled => exact hpolled.not_dropped
    | dropped id call effect hcall _ => exact absurd (hkeeps call hcall) hbuffer
  · rw [Function.update_of_ne hi] at hc
    exact hundropped i c hc hbuffer

omit [DecidableEq ι] in
/-- A failure closes the connection before it lets go of the gate. -/
theorem WireInv.guarded (hinv : WireInv core) (hundropped : Undropped core) (label : Label ι) :
    Guarded .closed core label := by
  rintro id choice call - - - - ⟨i, c, hc, hhanded, hpc | ⟨e, hpc⟩⟩
  · exact absurd hpc (hundropped i c hc (Call.buffer_ne_nil hhanded))
  · have hsound := hinv.sound i c hc
    rw [hpc] at hsound
    rcases hsound with h0 | ⟨-, -, hclosed⟩
    · exact absurd (Call.handed_eq_nil h0) hhanded
    · exact hclosed

/-- **The invariants of runs without dropped writers.** -/
structure OrderInv (core : Core ι) : Prop where
  wire : WireInv core
  torn : TornInv .closed core
  undropped : Undropped core

omit [DecidableEq ι] in
theorem orderInv_init : OrderInv ({} : Core ι) :=
  ⟨wireInv_init, tornInv_init _, fun _ _ h => absurd h nofun⟩

theorem OrderInv.step (hinv : OrderInv core) (hkeeps : KeepsWriters core label)
    (h : core.step label = some core') : OrderInv core' := by
  obtain ⟨id, call, hstepped, hchange⟩ := hinv.wire.change h
  exact ⟨hchange.wireInv hinv.wire, hchange.tornInv hinv.wire hinv.torn
    (hinv.wire.guarded hinv.undropped label), hstepped.undropped hkeeps hinv.undropped⟩

theorem orderInv_of_runs (h : Runs Core.step KeepsWriters {} core) : OrderInv core :=
  h.invariant OrderInv orderInv_init fun _ _ _ hinv hkeeps hstep => hinv.step hkeeps hstep

end Transport

end Taunicorn
