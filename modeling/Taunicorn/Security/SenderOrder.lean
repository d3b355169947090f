import Mathlib.Data.List.Nodup
import Taunicorn.Security.Sender

/-!
# The order of the secure senders

A call of `send` is accepted once its call of the core has succeeded; nothing that is left of it
can fail. It is committed once it has advanced the counter. There is at most one call between the
two, and it holds the lock.

Two orders have to be brought together: the one in which calls of `send` were given `send_state`,
which numbers the frames, and the one in which their calls of the core were given the write gate,
which is the order of the wire.

## Main results

* `ImageInv.step` — the counter counts the committed calls, the gate follows the lock, and after a
  torn frame neither moves
* `imageInv_of_runs` — in every run that drops no call of `send`
-/

namespace Taunicorn

namespace Security

open StreamProg Transport FifoMutex

variable {ι κ : Type}

/-! ### Accepted and committed calls -/

/-- The call has succeeded. -/
def succeeded (call : Call) : Bool :=
  match call.outcome with
  | some (.ok _) => true
  | _ => false

/-- The calls of `send` whose frame the connection has accepted, in the order in which they held
`send_state`. -/
def Sender.accepted (w : Sender ι κ) : List ι :=
  w.lock.granted.filter fun id => (w.core.calls (.inl id)).any succeeded

/-- The call has advanced the counter. -/
def SendPC.committed : SendPC → Bool
  | .unwind (some (.ok _)) => true
  | .done (.ok _) => true
  | _ => false

/-- The calls of `send` that have advanced the counter, in the order in which they held
`send_state`. -/
def Sender.committed (w : Sender ι κ) : List ι :=
  w.lock.granted.filter fun id => (w.sends id).any fun call => call.pc.committed

/-- The sequence number a call of `send` has read. -/
def Sender.number (w : Sender ι κ) (id : ι) : ℕ :=
  (w.sends id).elim 0 fun call => call.sequence.toNat

/-- The length-prefixed frame of a plaintext under sequence number `n`. -/
def NumberedFrame (cr : Crypto) (connection : SecureConnection) (n : ℕ)
    (plaintext bytes : List UInt8) : Prop :=
  ∃ sequence : UInt64, sequence.toNat = n ∧
    IsFrameOf cr connection.transcriptHash { connection.sendState with sequence := sequence }
      plaintext bytes

variable {cr : Crypto} {transcriptHash : Bytes transcriptHashSize} {state : DirectionState}
  {w w' : Sender ι κ} {label : SendLabel ι κ} {id j : ι} {call : SendCall} {c : Call}

theorem succeeded_iff : succeeded c = true ↔ ∃ v, c.outcome = some (.ok v) := by
  unfold succeeded
  split <;> simp_all

theorem IsFrameOf.ne_nil {plaintext bytes : List UInt8}
    (h : IsFrameOf cr transcriptHash state plaintext bytes) : bytes ≠ [] := by
  obtain ⟨ciphertext, -, hframe⟩ := h
  obtain ⟨hne, -, rfl⟩ := frame_eq_ok hframe
  exact fun hnil => hne (List.append_eq_nil_iff.mp hnil).2

/-- A committed call is accepted. -/
theorem Fit.succeeded_of_committed {inner : Option Call}
    (h : Fit cr transcriptHash state call inner) (hcommitted : call.pc.committed = true) :
    inner.any succeeded = true := by
  have hended : Ended inner (some (.ok ())) := by
    have hstage := h.2
    unfold SendPC.committed at hcommitted
    split at hcommitted
    · next hpc => rw [hpc] at hstage; exact hstage
    · next hpc => rw [hpc] at hstage; exact hstage
    · exact absurd hcommitted nofun
  obtain ⟨c, v, rfl, hdone⟩ := hended
  exact succeeded_iff.mpr ⟨v, by rw [Call.outcome, hdone]⟩

/-- An accepted call is committed, or is about to be. -/
theorem Fit.committed_of_succeeded {inner : Option Call}
    (h : Fit cr transcriptHash state call inner) (hsucceeded : inner.any succeeded = true) :
    call.pc.committed = true ∨ ∃ prog, call.pc = .running prog := by
  obtain ⟨c, rfl, hc⟩ := (Option.any_eq_true _ _).mp hsucceeded
  obtain ⟨v, hv⟩ := succeeded_iff.mp hc
  have hended : ∀ outcome, Ended (some c) outcome → outcome = some (.ok ()) := by
    rintro (_ | e | _) hended
    · rw [Call.outcome, hended c rfl] at hv
      exact absurd hv nofun
    · obtain ⟨e', he⟩ := hended c rfl
      rw [Call.outcome, he] at hv
      exact absurd hv nofun
    · rfl
  have hstage := h.2
  cases hpc : call.pc <;> rw [hpc] at hstage
  case start => exact absurd hstage nofun
  case locking => exact absurd hstage nofun
  case running prog => exact Or.inr ⟨prog, rfl⟩
  case unwind outcome => rw [hended outcome hstage]; exact Or.inl rfl
  case done outcome => rw [Option.some.inj (hended _ hstage)]; exact Or.inl rfl
  case dropped => exact absurd (hended _ hstage) nofun

/-- What an accepted call of `send` accounts for is its frame. -/
theorem Fit.delivered (h : Fit cr transcriptHash state call (some c))
    {closed : Bool} (hsound : c.op.Sound closed c.written c.pc) {v : Value}
    (hv : c.outcome = some (.ok v)) :
    IsFrameOf cr transcriptHash { state with sequence := call.sequence } call.plaintext
      (c.op.delivered v) := by
  obtain ⟨bytes, hop, hframe⟩ := h.1 c rfl
  have hdelivered := (Call.settled hsound hv).2
  rw [hop] at hdelivered ⊢
  rwa [hdelivered rfl]

/-! ### The counter counts the committed calls -/

variable [DecidableEq ι] [DecidableEq κ]

/-- A step commits a call, or leaves the counter and the committed calls alone. -/
theorem Sender.Stepped.commits (h : w.Stepped cr transcriptHash label w') :
    (∃ id call state, w.sends id = some call ∧ call.pc = .running (.pure state) ∧
      w' = { w.set id { call with pc := .unwind (some (.ok ())) } with sendState := state }) ∨
    (w'.sendState = w.sendState ∧ ∀ k,
      (w'.sends k).any (fun call => call.pc.committed) =
          (w.sends k).any (fun call => call.pc.committed) ∧
        ((w.sends k).any (fun call => call.pc.committed) = true → w'.number k = w.number k)) := by
  have hset : ∀ id call call', w.sends id = some call → call'.pc.committed = call.pc.committed →
      (call'.pc.committed = true → call'.sequence = call.sequence) → ∀ k,
      ((w.set id call').sends k).any (fun call => call.pc.committed) =
          (w.sends k).any (fun call => call.pc.committed) ∧
        ((w.sends k).any (fun call => call.pc.committed) = true →
          (w.set id call').number k = w.number k) := by
    intro id call call' hcall hcommitted hsequence k
    by_cases hk : k = id
    · subst hk
      simp only [Sender.number, Sender.set_sends_self, hcall, Option.any_some, Option.elim_some]
      exact ⟨hcommitted, fun h => by rw [hsequence (hcommitted.trans h)]⟩
    · simp only [Sender.number, Sender.set_sends_of_ne _ _ hk, implies_true, and_self]
  cases h with
  | called id plaintext hnone =>
    refine Or.inr ⟨rfl, fun k => ?_⟩
    by_cases hk : k = id
    · subst hk
      simp [hnone, SendPC.committed]
    · simp [Sender.number, hk]
  | committed id call state hcall hpc => exact Or.inl ⟨id, call, state, hcall, hpc, rfl⟩
  | requested id call hcall hpc =>
    exact Or.inr ⟨rfl, hset id call _ hcall (by rw [hpc]; rfl) fun _ => rfl⟩
  | locked id call hcall hpc _ =>
    exact Or.inr ⟨rfl, hset id call _ hcall (by rw [hpc]; rfl) nofun⟩
  | failed id call e hcall hpc =>
    exact Or.inr ⟨rfl, hset id call _ hcall (by rw [hpc]; rfl) fun _ => rfl⟩
  | noted id call event next hcall hpc =>
    exact Or.inr ⟨rfl, hset id call _ hcall (by rw [hpc]; rfl) fun _ => rfl⟩
  | began => exact Or.inr ⟨rfl, fun k => ⟨rfl, fun _ => rfl⟩⟩
  | sent id call bytes next inner v hcall hpc _ _ =>
    exact Or.inr ⟨rfl, hset id call _ hcall (by rw [hpc]; rfl) fun _ => rfl⟩
  | refused id call bytes next inner e hcall hpc _ _ =>
    exact Or.inr ⟨rfl, hset id call _ hcall (by rw [hpc]; rfl) fun _ => rfl⟩
  | returned id call outcome hcall hpc =>
    refine Or.inr ⟨rfl, hset id call _ hcall ?_ fun _ => rfl⟩
    rw [hpc]
    cases outcome <;> rfl
  | unwound id call hcall hpc =>
    exact Or.inr ⟨rfl, hset id call _ hcall (by rw [hpc]; rfl) fun _ => rfl⟩
  | droppedStart id call hcall hpc =>
    exact Or.inr ⟨rfl, hset id call _ hcall (by rw [hpc]; rfl) fun _ => rfl⟩
  | droppedLocking id call hcall hpc =>
    exact Or.inr ⟨rfl, hset id call _ hcall (by rw [hpc]; rfl) fun _ => rfl⟩
  | droppedSending id call bytes next core hcall hpc _ =>
    exact Or.inr ⟨rfl, hset id call _ hcall (by rw [hpc]; rfl) fun _ => rfl⟩
  | beside => exact Or.inr ⟨rfl, fun k => ⟨rfl, fun _ => rfl⟩⟩

/-- Whoever is given the lock in a step waits for it. -/
theorem Sender.Stepped.granted (h : w.Stepped cr transcriptHash label w')
    (hinv : SenderInv cr transcriptHash state w) :
    ∃ added, w'.lock.granted = w.lock.granted ++ added ∧
      ∀ k ∈ added, ∃ call, w'.sends k = some call ∧ call.pc = .locking := by
  rcases h.change hinv with ⟨id, call, hchange⟩ | ⟨l, core, -, -, -, rfl⟩
  · obtain ⟨added, hgranted, hadded⟩ := hchange.move.granted_place
      (fun id => (w.sends id).elim .away fun call => call.pc.place) hinv.once hinv.at_place
    refine ⟨added, hgranted, fun k hk => ?_⟩
    have hplace : (w'.sends k).elim .away (fun call => call.pc.place) = .waiting := by
      rw [← hadded k hk, hchange.sends]
      by_cases hne : k = id
      · rw [hne, Function.update_self, Function.update_self]
        rfl
      · rw [Function.update_of_ne hne, Function.update_of_ne hne]
    cases hcall : w'.sends k with
    | none => rw [hcall] at hplace; exact absurd hplace nofun
    | some call =>
      rw [hcall] at hplace
      refine ⟨call, rfl, ?_⟩
      cases hpc : call.pc <;> rw [Option.elim_some, hpc] at hplace <;>
        first | rfl | exact absurd hplace nofun
  · exact ⟨[], (List.append_nil _).symm, fun k hk => absurd hk List.not_mem_nil⟩

variable (cr) in
/-- **The invariant of the wire image.** -/
structure ImageInv (connection : SecureConnection) (w : Sender ι κ) : Prop where
  sender : SenderInv cr connection.transcriptHash connection.sendState w
  order : OrderInv w.core
  numbers : w.committed.map w.number
    = List.range' connection.sendState.sequence.toNat w.committed.length
  counter : w.sendState.sequence.toNat
    = connection.sendState.sequence.toNat + w.committed.length
  /-- Calls of `send` get the gate in the order in which they got the lock. -/
  sublist : (w.core.shared.writeGate.granted.filterMap Sum.getLeft?).Sublist w.lock.granted
  /-- After a torn frame the counter stays, -/
  torn : ∀ id call, w.core.Torn (.inl id) → w.sends id = some call →
    call.sequence = w.sendState.sequence
  /-- and a later call hands over nothing. -/
  torn_last : ∀ id j call prog, w.core.Torn (.inl id) → w.sends j = some call →
    call.pc = .running prog → j ≠ id → w.core.handed (.inl j) = []

variable {connection : SecureConnection}

/-- The counter still counts the committed calls. -/
theorem ImageInv.counted (hinv : ImageInv cr connection w)
    (h : w.Stepped cr connection.transcriptHash label w') :
    w'.committed.map w'.number
        = List.range' connection.sendState.sequence.toNat w'.committed.length ∧
      w'.sendState.sequence.toNat
        = connection.sendState.sequence.toNat + w'.committed.length := by
  rcases h.commits with ⟨id, call, next, hcall, hpc, rfl⟩ | ⟨hstate, hsame⟩
  · -- the holder commits, and it is the last in the history of the lock
    obtain ⟨-, hstage⟩ := hinv.sender.fit id call hcall
    rw [hpc] at hstage
    obtain ⟨hsequence, hresidual⟩ := hstage
    generalize w.core.calls (.inl id) = inner at hresidual
    cases hresidual with
    | @handed next _ _ _ hnext _ _ _ =>
      obtain ⟨before, hbefore, hmem⟩ := hinv.sender.once.holder_last
        (hinv.sender.holder hcall (by rw [hpc]; rfl))
      have hold : w.committed = before.filter fun k =>
          (w.sends k).any fun call => call.pc.committed := by
        rw [Sender.committed, hbefore, List.filter_append]
        simp [hcall, hpc, SendPC.committed]
      have hne : ∀ k ∈ before, k ≠ id := fun k hk hid => hmem (hid ▸ hk)
      set w' : Sender ι κ := { w.set id { call with pc := .unwind (some (.ok ())) } with
        sendState := { w.sendState with sequence := next } } with hw'
      have hself : w'.sends id = some { call with pc := .unwind (some (.ok ())) } :=
        w.set_sends_self id _
      have hother : ∀ k ∈ before, w'.sends k = w.sends k := fun k hk =>
        w.set_sends_of_ne _ (hne k hk)
      have hnew : w'.committed = w.committed ++ [id] := by
        rw [hold, Sender.committed, show w'.lock.granted = _ from hbefore, List.filter_append]
        congr 1
        · exact List.filter_congr fun k hk => by rw [hother k hk]
        · simp [hself, SendPC.committed]
      have hnumber : w.committed.map w'.number = w.committed.map w.number := by
        refine List.map_congr_left fun k hk => ?_
        rw [hold] at hk
        simp only [Sender.number, hother k (List.mem_of_mem_filter hk)]
      have hid : w'.number id = connection.sendState.sequence.toNat + w.committed.length := by
        simp only [Sender.number, hself, Option.elim_some]
        rw [hsequence, hinv.counter]
      have hcount := checkedSucc_eq_some_iff.mp hnext
      rw [hnew, List.map_append, hnumber, hinv.numbers, List.length_append, List.map_singleton,
        List.length_singleton, List.range'_1_concat, hid]
      refine ⟨rfl, ?_⟩
      change next.toNat = _
      rw [hcount, hinv.counter, Nat.add_assoc]
  · obtain ⟨added, hgranted, hadded⟩ := h.granted hinv.sender
    have hnone : added.filter (fun k => (w'.sends k).any fun call => call.pc.committed) = [] := by
      refine List.filter_eq_nil_iff.mpr fun k hk => ?_
      obtain ⟨call, hcall, hpc⟩ := hadded k hk
      simp [hcall, hpc, SendPC.committed]
    have heq : w'.committed = w.committed := by
      rw [Sender.committed, hgranted, List.filter_append, hnone, List.append_nil]
      exact List.filter_congr fun k _ => (hsame k).1
    have hnumber : w.committed.map w'.number = w.committed.map w.number := by
      refine List.map_congr_left fun k hk => (hsame k).2 ?_
      rw [Sender.committed, List.mem_filter] at hk
      exact hk.2
    rw [heq, hnumber, hstate]
    exact ⟨hinv.numbers, hinv.counter⟩

/-! ### The gate follows the lock -/

omit [DecidableEq ι] [DecidableEq κ] in
/-- A call that waits for the gate is under way. -/
theorem live_of_waiting {core : Core (ι ⊕ κ)} {i : ι ⊕ κ} (h : core.place i = .waiting) :
    ∃ c, core.calls i = some c ∧ c.pc.Live := by
  unfold Core.place at h
  split at h
  · exact absurd h nofun
  · next c hc =>
    refine ⟨c, hc, ?_⟩
    unfold Op.place at h
    cases hpc : c.pc <;> rw [hpc] at h
    case done => simp only at h; split_ifs at h
    case dropped => simp only at h; split_ifs at h
    case panicked => simp only at h; split_ifs at h
    all_goals trivial

omit [DecidableEq ι] [DecidableEq κ] in
/-- A call of the core that is under way belongs to the holder of the lock. -/
theorem SenderInv.holder_of_live (hinv : SenderInv cr transcriptHash state w)
    (hc : w.core.calls (.inl id) = some c) (hlive : c.pc.Live) :
    w.lock.holder = some id := by
  cases hcall : w.sends id with
  | none => exact absurd ((hinv.absent id hcall).symm.trans hc) nofun
  | some call =>
    have hfit := hinv.fit id call hcall
    rw [hc] at hfit
    obtain ⟨bytes, next, hpc, -⟩ := hfit.running hlive
    exact hinv.holder hcall (by rw [hpc]; rfl)

theorem sublist_of_concat {α : Type} {l before : List α} {i : α} (h : l.Sublist (before ++ [i]))
    (hi : i ∉ l) : l.Sublist before := by
  obtain ⟨l₁, l₂, rfl, h₁, h₂⟩ := List.sublist_append_iff.mp h
  rcases List.sublist_singleton.mp h₂ with rfl | rfl
  · rwa [List.append_nil]
  · exact absurd (List.mem_append_right _ List.mem_cons_self) hi

theorem ImageInv.sublist_step (hinv : ImageInv cr connection w)
    (h : w.Stepped cr connection.transcriptHash label w') (hdrop : NoSendDropped w label)
    (hsender : SenderInv cr connection.transcriptHash connection.sendState w') :
    (w'.core.shared.writeGate.granted.filterMap Sum.getLeft?).Sublist w'.lock.granted := by
  rcases h.core_step hinv.sender hdrop with hcore | ⟨hlock, -, -, l, hkeeps, hstep⟩
  · obtain ⟨added, hgranted, -⟩ := h.granted hinv.sender
    rw [hcore, hgranted]
    exact hinv.sublist.trans (List.sublist_append_left _ _)
  · obtain ⟨mover, c, -, hchange⟩ := hinv.order.wire.change hstep
    obtain ⟨added, hgranted, hadded⟩ := hchange.granted_waiting hinv.order.wire
    -- whoever is given the gate holds the lock, so it is one call, and the last
    have hholder : ∀ j ∈ added.filterMap Sum.getLeft?, w'.lock.holder = some j := by
      intro j hj
      obtain ⟨i, hi, hij⟩ := List.mem_filterMap.mp hj
      obtain rfl := Sum.getLeft?_eq_some_iff.mp hij
      obtain ⟨c, hc, hlive⟩ := live_of_waiting (hadded _ hi)
      exact hsender.holder_of_live hc hlive
    have hnodup : (w'.core.shared.writeGate.granted.filterMap Sum.getLeft?).Nodup := by
      refine ((hchange.wireInv hinv.order.wire).once.granted_nodup).filterMap ?_
      intro a b j ha hb
      rw [Option.mem_def, Sum.getLeft?_eq_some_iff] at ha hb
      rw [ha, hb]
    have hsub := hinv.sublist
    rw [hgranted, List.filterMap_append] at hnodup ⊢
    rw [← hlock] at hsub
    cases hlefts : added.filterMap Sum.getLeft? with
    | nil => rwa [List.append_nil]
    | cons j rest =>
      rw [hlefts] at hholder hnodup
      have hrest : rest = [] := by
        refine List.eq_nil_iff_forall_not_mem.mpr fun k hk => ?_
        have hkj : k = j := Option.some.inj
          ((hholder k (List.mem_cons_of_mem _ hk)).symm.trans (hholder j List.mem_cons_self))
        exact (List.nodup_cons.mp (List.nodup_append.mp hnodup).2.1).1 (hkj ▸ hk)
      subst hrest
      obtain ⟨before, hbefore, -⟩ := hsender.once.holder_last (hholder j List.mem_cons_self)
      rw [hbefore] at hsub ⊢
      refine List.Sublist.append (sublist_of_concat hsub fun hj => ?_) (List.Sublist.refl _)
      exact (List.nodup_append.mp hnodup).2.2 j hj j List.mem_cons_self rfl

/-! ### After a torn frame -/

/-- What a step leaves alone in a call of `send` that has a call of the core. -/
theorem Sender.Stepped.sends_of_inner (h : w.Stepped cr transcriptHash label w')
    (hinv : SenderInv cr transcriptHash state w) (hinner : w.core.calls (.inl j) ≠ none)
    (hcall : w'.sends j = some call) :
    ∃ old, w.sends j = some old ∧ call.sequence = old.sequence ∧
      ((∃ prog, call.pc = .running prog) → ∃ prog, old.pc = .running prog) := by
  have hset : ∀ {id old new}, (w.set id new).sends j = some call → w.sends id = some old →
      (id = j → new.sequence = old.sequence ∧
        ((∃ prog, new.pc = .running prog) → ∃ prog, old.pc = .running prog)) →
      ∃ old, w.sends j = some old ∧
        call.sequence = old.sequence ∧
        ((∃ prog, call.pc = .running prog) → ∃ prog, old.pc = .running prog) := by
    intro id old new hcall hold hnew
    by_cases hid : id = j
    · subst hid
      rw [Sender.set_sends_self, Option.some.injEq] at hcall
      exact ⟨old, hold, hcall ▸ hnew rfl⟩
    · rw [Sender.set_sends_of_ne _ _ (Ne.symm hid)] at hcall
      exact ⟨call, hcall, rfl, fun h => h⟩
  cases h with
  | called id plaintext hnone =>
    have hne : j ≠ id := by
      rintro rfl
      exact hinner (hinv.absent j hnone)
    rw [Sender.set_sends_of_ne _ _ hne] at hcall
    exact ⟨call, hcall, rfl, fun h => h⟩
  | requested id old hold hpc => exact hset hcall hold fun _ => ⟨rfl, fun ⟨_, h⟩ => nomatch h⟩
  | locked id old hold hpc _ =>
    refine hset hcall hold fun hid => ?_
    have hstage := (hinv.fit id old hold).2
    rw [hpc] at hstage
    exact absurd hstage (hid ▸ hinner)
  | committed id old state hold hpc => exact hset hcall hold fun _ => ⟨rfl, fun ⟨_, h⟩ => nomatch h⟩
  | failed id old e hold hpc => exact hset hcall hold fun _ => ⟨rfl, fun ⟨_, h⟩ => nomatch h⟩
  | noted id old event next hold hpc => exact hset hcall hold fun _ => ⟨rfl, fun _ => ⟨_, hpc⟩⟩
  | began => exact ⟨call, hcall, rfl, fun h => h⟩
  | sent id old bytes next inner v hold hpc _ _ =>
    exact hset hcall hold fun _ => ⟨rfl, fun _ => ⟨_, hpc⟩⟩
  | refused id old bytes next inner e hold hpc _ _ =>
    exact hset hcall hold fun _ => ⟨rfl, fun ⟨_, h⟩ => nomatch h⟩
  | returned id old outcome hold hpc =>
    exact hset hcall hold fun _ => ⟨rfl, fun ⟨_, h⟩ => nomatch h⟩
  | unwound id old hold hpc => exact hset hcall hold fun _ => ⟨rfl, fun ⟨_, h⟩ => nomatch h⟩
  | droppedStart id old hold hpc => exact hset hcall hold fun _ => ⟨rfl, fun ⟨_, h⟩ => nomatch h⟩
  | droppedLocking id old hold hpc => exact hset hcall hold fun _ => ⟨rfl, fun ⟨_, h⟩ => nomatch h⟩
  | droppedSending id old bytes next core hold hpc _ =>
    exact hset hcall hold fun _ => ⟨rfl, fun ⟨_, h⟩ => nomatch h⟩
  | beside => exact ⟨call, hcall, rfl, fun h => h⟩

omit [DecidableEq ι] [DecidableEq κ] in
/-- Once a frame is torn, nobody commits. -/
theorem ImageInv.no_commit (hinv : ImageInv cr connection w) (htorn : w.core.Torn (.inl id))
    {next : DirectionState} (hcall : w.sends j = some call)
    (hpc : call.pc = .running (.pure next)) : False := by
  obtain ⟨-, hstage⟩ := hinv.sender.fit j call hcall
  rw [hpc] at hstage
  obtain ⟨-, hresidual⟩ := hstage
  generalize hinner : w.core.calls (.inl j) = inner at hresidual
  cases hresidual with
  | @handed next bytes c v _ hframe hop hdone =>
    have hne : j ≠ id := by
      rintro rfl
      obtain ⟨c', hc', -, hpc' | ⟨e, hpc'⟩⟩ := htorn
      · obtain rfl := Option.some.inj (hinner.symm.trans hc')
        exact absurd (hdone.symm.trans hpc') nofun
      · obtain rfl := Option.some.inj (hinner.symm.trans hc')
        exact absurd (hdone.symm.trans hpc') nofun
    have hsettled := Call.settled (hinv.order.wire.sound _ c hinner)
      (show c.outcome = some (.ok v) by rw [Call.outcome, hdone])
    have hhanded := hinv.torn_last id j call _ htorn hcall hpc hne
    rw [Core.handed_eq hinner, Call.handed, hsettled.1, hsettled.2 (by rw [hop]; rfl), hop]
      at hhanded
    exact hframe.ne_nil hhanded

theorem ImageInv.torn_step (hinv : ImageInv cr connection w)
    (h : w.Stepped cr connection.transcriptHash label w') (hdrop : NoSendDropped w label)
    (htorn : w'.core.Torn (.inl id)) :
    (∀ call, w'.sends id = some call → call.sequence = w'.sendState.sequence) ∧
      ∀ j call prog, w'.sends j = some call → call.pc = .running prog → j ≠ id →
        w'.core.handed (.inl j) = [] := by
  rcases h.core_step hinv.sender hdrop with hcore | ⟨-, hstate, hsends, l, hkeeps, hstep⟩
  · rw [hcore] at htorn ⊢
    refine ⟨fun call hcall => ?_, fun j call prog hcall hpc hne => ?_⟩
    · have ⟨c, hc, _⟩ := htorn
      obtain ⟨old, hold, hsequence, -⟩ :=
        h.sends_of_inner hinv.sender (by rw [hc]; exact nofun) hcall
      rcases h.commits with ⟨j, call', next, hcall', hpc, -⟩ | ⟨hstate, -⟩
      · exact (hinv.no_commit htorn hcall' hpc).elim
      · rw [hsequence, hstate]
        exact hinv.torn id old htorn hold
    · cases hc : w.core.calls (.inl j) with
      | none => simp only [Core.handed, hc]
      | some c =>
        obtain ⟨old, hold, -, hrunning⟩ :=
          h.sends_of_inner hinv.sender (by rw [hc]; exact nofun) hcall
        obtain ⟨prog', hprog⟩ := hrunning ⟨prog, hpc⟩
        exact hinv.torn_last id j old prog' htorn hold hprog hne
  · rw [hsends, hstate]
    by_cases hold : w.core.Torn (.inl id)
    · obtain ⟨-, hhanded⟩ := hinv.order.torn.silent hinv.order.wire hold hstep
      refine ⟨fun call => hinv.torn id call hold, fun j call prog hcall hpc hne => ?_⟩
      rw [hhanded]
      exact hinv.torn_last id j call prog hold hcall hpc hne
    · -- the frame is torn by this step, under the lock
      obtain ⟨mover, c, hstepped, hchange⟩ := hinv.order.wire.change hstep
      obtain rfl : mover = .inl id := by
        by_contra hne
        exact hold ((hchange.torn_of_ne (Ne.symm hne)).mp htorn)
      obtain ⟨c', hc', htorn'⟩ := htorn
      obtain rfl := Option.some.inj (hchange.calls_self.symm.trans hc')
      obtain ⟨old, hinner, hlive⟩ := hstepped.live_of_torn htorn'
      have hholder := hinv.sender.holder_of_live hinner hlive
      refine ⟨fun call hcall => ?_, fun j call prog hcall hpc hne => ?_⟩
      · have hfit := hinv.sender.fit id call hcall
        rw [hinner] at hfit
        obtain ⟨-, -, -, -, hsequence, -⟩ := hfit.running hlive
        exact hsequence
      · have hj := hinv.sender.holder hcall (by rw [hpc]; rfl)
        exact absurd (Option.some.inj (hj.symm.trans hholder)) hne

/-- **The wire image is kept.** -/
theorem ImageInv.step (hinv : ImageInv cr connection w) (hdrop : NoSendDropped w label)
    (h : w.step cr connection.transcriptHash label = some w') : ImageInv cr connection w' := by
  have hsender := hinv.sender.step h
  have hstepped := Sender.stepped h
  obtain ⟨hnumbers, hcounter⟩ := hinv.counted hstepped
  refine ⟨hsender, ?_, hnumbers, hcounter, hinv.sublist_step hstepped hdrop hsender,
    fun id call htorn => (hinv.torn_step hstepped hdrop htorn).1 call,
    fun id j call prog htorn => (hinv.torn_step hstepped hdrop htorn).2 j call prog⟩
  rcases hstepped.core_step hinv.sender hdrop with hcore | ⟨-, -, -, l, hkeeps, hstep⟩
  · rw [hcore]
    exact hinv.order
  · exact hinv.order.step hkeeps hstep

theorem imageInv_of_runs
    (h : Runs (Sender.step cr connection.transcriptHash) NoSendDropped (Sender.init connection) w) :
    ImageInv cr connection w := by
  refine h.invariant (ImageInv cr connection) ?_ fun _ _ _ hinv hdrop hstep => hinv.step hdrop hstep
  exact {
    sender := senderInv_init connection
    order := orderInv_init
    numbers := rfl
    counter := rfl
    sublist := List.Sublist.refl _
    torn := fun _ _ _ h => nomatch h
    torn_last := fun _ _ _ _ _ h => nomatch h }

end Security

end Taunicorn
