import Taunicorn.Security.SenderOrder
import Taunicorn.Transport.Wire

/-!
# What the secure senders put on the wire

`ConnectionCore::send` writes whole frames or closes the connection, and `send_state` is held
around it. Together: the wire is a sequence of frames under consecutive sequence numbers, one for
each call that is accepted, and then at most a piece of the next one.

## Main results

* `ImageInv.accepted_numbers` — the accepted calls carry consecutive sequence numbers
* `ImageInv.loose` — a piece of a frame is one of the next
* `wire_image` — the wire of any number of concurrent senders
-/

namespace Taunicorn

namespace Security

open StreamProg Transport FifoMutex

variable {ι κ : Type} {cr : Crypto} {connection : SecureConnection} {w w' : Sender ι κ} {id : ι}

/-! ### Accepted calls -/

/-- Behind the lock or not, whoever is not running is accepted exactly when it is committed. -/
theorem SenderInv.succeeded_eq_committed {transcriptHash : Bytes transcriptHashSize}
    {state : DirectionState} (hinv : SenderInv cr transcriptHash state w) (id : ι)
    (hrunning : ∀ call prog, w.sends id = some call → call.pc = .running prog →
      (w.core.calls (.inl id)).any succeeded = false) :
    (w.core.calls (.inl id)).any succeeded = (w.sends id).any fun call => call.pc.committed := by
  cases hcall : w.sends id with
  | none => rw [hinv.absent id hcall]; rfl
  | some call =>
    have hfit := hinv.fit id call hcall
    rw [Option.any_some]
    cases hcommitted : call.pc.committed with
    | true => exact hfit.succeeded_of_committed hcommitted
    | false =>
      refine Bool.eq_false_iff.mpr fun hsucceeded => ?_
      rcases hfit.committed_of_succeeded hsucceeded with h | ⟨prog, hprog⟩
      · exact absurd (hcommitted.symm.trans h) nofun
      · exact absurd ((hrunning call prog hcall hprog).symm.trans hsucceeded) nofun

/-- The accepted calls are the committed ones, and at most one that is about to commit. -/
theorem ImageInv.accepted_cases (hinv : ImageInv cr connection w) :
    w.accepted = w.committed ∨ ∃ id call prog, w.sends id = some call ∧ call.pc = .running prog ∧
      (w.core.calls (.inl id)).any succeeded = true ∧ w.accepted = w.committed ++ [id] := by
  by_cases hex : ∃ id call prog, w.sends id = some call ∧ call.pc = .running prog ∧
      (w.core.calls (.inl id)).any succeeded = true
  · obtain ⟨id, call, prog, hcall, hpc, hsucceeded⟩ := hex
    refine Or.inr ⟨id, call, prog, hcall, hpc, hsucceeded, ?_⟩
    have hholder := hinv.sender.holder hcall (by rw [hpc]; rfl)
    obtain ⟨before, hbefore, hmem⟩ := hinv.sender.once.holder_last hholder
    rw [Sender.accepted, Sender.committed, hbefore, List.filter_append, List.filter_append]
    have hsame : before.filter (fun id => (w.core.calls (.inl id)).any succeeded)
        = before.filter fun id => (w.sends id).any fun call => call.pc.committed := by
      refine List.filter_congr fun k hk => hinv.sender.succeeded_eq_committed k ?_
      intro call' prog' hcall' hpc'
      have hk' := hinv.sender.holder hcall' (by rw [hpc']; rfl)
      exact absurd (Option.some.inj (hk'.symm.trans hholder) ▸ hk) hmem
    simp [hsame, hsucceeded, hcall, hpc, SendPC.committed]
  · refine Or.inl (List.filter_congr fun k _ => hinv.sender.succeeded_eq_committed k ?_)
    intro call prog hcall hpc
    refine Bool.eq_false_iff.mpr fun hsucceeded => hex ⟨k, call, prog, hcall, hpc, hsucceeded⟩

/-- The accepted calls carry consecutive sequence numbers. -/
theorem ImageInv.accepted_numbers (hinv : ImageInv cr connection w) :
    w.accepted.map w.number
      = List.range' connection.sendState.sequence.toNat w.accepted.length := by
  rcases hinv.accepted_cases with heq | ⟨id, call, prog, hcall, hpc, -, heq⟩
  · rw [heq]
    exact hinv.numbers
  · obtain ⟨-, hstage⟩ := hinv.sender.fit id call hcall
    rw [hpc] at hstage
    have hnumber : w.number id = connection.sendState.sequence.toNat + w.committed.length := by
      simp only [Sender.number, hcall, Option.elim_some]
      rw [hstage.1, hinv.counter]
    rw [heq, List.map_append, hinv.numbers, List.map_singleton, hnumber, List.length_append,
      List.length_singleton, List.range'_1_concat]

/-- A list and a part of it that leaves out only what maps to nothing. -/
theorem flatMap_of_sublist {α β : Type} {f : α → List β} {l l' : List α} (h : l.Sublist l')
    (hnodup : l'.Nodup) (hmem : ∀ a ∈ l', f a ≠ [] → a ∈ l) : l.flatMap f = l'.flatMap f := by
  induction h with
  | slnil => rfl
  | @cons l l' a hsub ih =>
    obtain ⟨ha, hnodup⟩ := List.nodup_cons.mp hnodup
    have hnil : f a = [] := by
      by_contra hne
      exact ha (hsub.subset (hmem a List.mem_cons_self hne))
    rw [List.flatMap_cons, hnil, List.nil_append]
    exact ih hnodup fun b hb => hmem b (List.mem_cons_of_mem _ hb)
  | @cons_cons l l' a hsub ih =>
    obtain ⟨ha, hnodup⟩ := List.nodup_cons.mp hnodup
    rw [List.flatMap_cons, List.flatMap_cons, ih hnodup]
    intro b hb hne
    rcases List.mem_cons.mp (hmem b (List.mem_cons_of_mem _ hb) hne) with rfl | hbl
    · exact absurd hb ha
    · exact hbl

/-- A sum whose right parts map to nothing. -/
theorem flatMap_getLeft {α β γ : Type} {f : α ⊕ β → List γ} (h : ∀ b, f (.inr b) = [])
    (l : List (α ⊕ β)) : l.flatMap f = (l.filterMap Sum.getLeft?).flatMap fun a => f (.inl a) := by
  induction l with
  | nil => rfl
  | cons x l ih =>
    cases x with
    | inl a => rw [List.flatMap_cons, ih]; rfl
    | inr b => rw [List.flatMap_cons, ih, h b]; rfl

/-- What accounts for bytes is an accepted call of `send`. -/
theorem succeeded_of_delivered {core : Core (ι ⊕ κ)} {i : ι ⊕ κ} (h : core.delivered i ≠ []) :
    (core.calls i).any succeeded = true := by
  unfold Core.delivered at h
  split at h
  · exact absurd rfl h
  · next c hc =>
    rw [hc, Option.any_some, succeeded_iff]
    split at h
    · next v hv => exact ⟨v, hv⟩
    · exact absurd rfl h

/-- The frames of the accepted calls, in the order of the lock, are what calls account for. -/
theorem ImageInv.frames (hinv : ImageInv cr connection w) :
    w.core.shared.writeGate.granted.flatMap w.core.delivered
      = (w.accepted.map fun id => w.core.delivered (.inl id)).flatten := by
  have hothers : ∀ k, w.core.delivered (.inr k) = [] := by
    intro k
    unfold Core.delivered
    split
    · rfl
    · next c hc =>
      split
      · exact Op.delivered_eq_nil (hinv.sender.others k c hc) _
      · rfl
  have hnodup := hinv.sender.once.granted_nodup
  rw [flatMap_getLeft hothers, ← List.flatMap_def,
    flatMap_of_sublist hinv.sublist hnodup fun id _ hne => ?_, Sender.accepted,
    flatMap_of_sublist List.filter_sublist hnodup fun id hid hne =>
      List.mem_filter.mpr ⟨hid, succeeded_of_delivered hne⟩]
  exact List.mem_filterMap.mpr ⟨.inl id, hinv.order.wire.mem_of_delivered hne, rfl⟩

/-- A call that has succeeded accounts for its frame. -/
theorem ImageInv.frame_of_succeeded (hinv : ImageInv cr connection w)
    (hsucceeded : (w.core.calls (.inl id)).any succeeded = true) :
    ∃ call, w.sends id = some call ∧
      IsFrameOf cr connection.transcriptHash { connection.sendState with sequence := call.sequence }
        call.plaintext (w.core.delivered (.inl id)) := by
  obtain ⟨c, hc, hc'⟩ := (Option.any_eq_true _ _).mp hsucceeded
  obtain ⟨v, hv⟩ := succeeded_iff.mp hc'
  cases hcall : w.sends id with
  | none => exact absurd ((hinv.sender.absent id hcall).symm.trans hc) nofun
  | some call =>
    have hfit := hinv.sender.fit id call hcall
    have hframe := (hc ▸ hfit).delivered (hinv.order.wire.sound _ c hc) hv
    rw [hinv.sender.base] at hframe
    refine ⟨call, rfl, ?_⟩
    simpa only [Core.delivered, hc, hv] using hframe

/-- It has held the lock. -/
theorem ImageInv.mem_accepted (hinv : ImageInv cr connection w)
    (hsucceeded : (w.core.calls (.inl id)).any succeeded = true) : id ∈ w.accepted := by
  obtain ⟨call, -, hframe⟩ := hinv.frame_of_succeeded hsucceeded
  refine List.mem_filter.mpr ⟨hinv.sublist.subset ?_, hsucceeded⟩
  exact List.mem_filterMap.mpr ⟨.inl id, hinv.order.wire.mem_of_delivered hframe.ne_nil, rfl⟩

/-- A call that has handed over a piece of its frame, and no more, has the next sequence number. -/
theorem ImageInv.loose (hinv : ImageInv cr connection w) {i : ι ⊕ κ}
    (h : w.core.handed i ≠ w.core.delivered i) :
    ∃ id call c bytes, i = .inl id ∧ w.sends id = some call ∧ w.core.calls (.inl id) = some c ∧
      c.op = .send bytes ∧ c.handed ≠ [] ∧ c.written < bytes.length ∧
      (∀ v, c.outcome ≠ some (.ok v)) ∧ (w.core.Torn (.inl id) ∨ ∃ prog, call.pc = .running prog) ∧
      NumberedFrame cr connection (connection.sendState.sequence.toNat + w.accepted.length)
        call.plaintext bytes := by
  obtain ⟨c, hc, hhanded, -, hfailed, hlt, -⟩ := hinv.order.wire.loose h
  obtain ⟨id, rfl⟩ : ∃ id, i = .inl id := by
    cases i with
    | inl id => exact ⟨id, rfl⟩
    | inr k => exact absurd (hinv.sender.others k c hc) (Call.buffer_ne_nil hhanded)
  cases hcall : w.sends id with
  | none => exact absurd ((hinv.sender.absent id hcall).symm.trans hc) nofun
  | some call =>
    have hfit := hinv.sender.fit id call hcall
    rw [hc] at hfit
    obtain ⟨bytes, hop, hframe⟩ := hfit.1 c rfl
    have hstands : w.core.Torn (.inl id) ∨ ∃ prog, call.pc = .running prog := by
      by_cases hlive : c.pc.Live
      · obtain ⟨_, _, hpc, -⟩ := hfit.running hlive
        exact Or.inr ⟨_, hpc⟩
      · exact Or.inl (hinv.order.wire.torn_of_not_live hc hhanded hfailed hlive)
    -- nobody is between accepted and committed
    have hcommitted : w.accepted = w.committed := by
      rcases hinv.accepted_cases with heq | ⟨j, call', prog', hcall', hpc', hsucceeded, -⟩
      · exact heq
      · exfalso
        obtain ⟨c', hc', hv'⟩ := (Option.any_eq_true _ _).mp hsucceeded
        obtain ⟨v, hv⟩ := succeeded_iff.mp hv'
        have hne : j ≠ id := by
          rintro rfl
          obtain rfl := Option.some.inj (hc.symm.trans hc')
          exact hfailed v hv
        rcases hstands with htorn | ⟨prog, hpc⟩
        · have hnil := hinv.torn_last id j call' prog' htorn hcall' hpc' hne
          have hsound := hinv.order.wire.sound _ c' hc'
          have hfit' := hinv.sender.fit j call' hcall'
          rw [hc'] at hfit'
          have hsettled := (Call.settled hsound hv).1
          rw [Core.handed_eq hc', Call.handed, hsettled] at hnil
          exact (hfit'.delivered hsound hv).ne_nil hnil
        · have hj := hinv.sender.holder hcall' (by rw [hpc']; rfl)
          have hid := hinv.sender.holder hcall (by rw [hpc]; rfl)
          exact hne (Option.some.inj (hj.symm.trans hid))
    have hsequence : call.sequence = w.sendState.sequence := by
      rcases hstands with htorn | ⟨prog, hpc⟩
      · exact hinv.torn id call htorn hcall
      · have hstage := hfit.2
        rw [hpc] at hstage
        exact hstage.1
    rw [hop] at hlt
    rw [hinv.sender.base] at hframe
    refine ⟨id, call, c, bytes, rfl, hcall, hc, hop, hhanded, hlt, hfailed, hstands,
      call.sequence, ?_, hframe⟩
    rw [hsequence, hinv.counter, hcommitted]

variable [DecidableEq ι] [DecidableEq κ]

/-- Nothing follows a torn frame. -/
theorem ImageInv.silent (hinv : ImageInv cr connection w) (htorn : w.core.Torn (.inl id))
    (h : Runs (Sender.step cr connection.transcriptHash) NoSendDropped w w') :
    w'.core.shared.wire = w.core.shared.wire := by
  have hrun := h.invariant (fun w' => ImageInv cr connection w' ∧ w'.core.Torn (.inl id) ∧
    w'.core.shared.wire = w.core.shared.wire) ⟨hinv, htorn, rfl⟩ ?_
  · exact hrun.2.2
  · rintro w₁ label w₂ ⟨hinv₁, htorn₁, hwire₁⟩ hdrop hstep
    refine ⟨hinv₁.step hdrop hstep, ?_⟩
    rcases (Sender.stepped hstep).core_step hinv₁.sender hdrop with hcore | ⟨-, -, -, l, -, hcore⟩
    · rw [hcore]
      exact ⟨htorn₁, hwire₁⟩
    · obtain ⟨mover, c, hstepped⟩ := Core.stepped hcore
      exact ⟨hstepped.torn htorn₁,
        (hinv₁.order.torn.silent hinv₁.order.wire htorn₁ hcore).1.trans hwire₁⟩

/-- **The wire of the secure senders.** In every run of any number of concurrent calls of `send`,
none of them dropped, beside any other calls that hand over no bytes:

* a call that has returned has been accepted exactly if it has returned `Ok`;
* the wire is one frame for each accepted call, in the order in which they held `send_state` and
  under consecutive sequence numbers, and then at most a non-empty proper prefix of the frame with
  the next sequence number;
* if the call that owns the prefix has returned, it has returned an error, the connection is
  closed, and no byte follows;
* the counter has advanced by the number of calls that have committed, in `ℕ`. -/
theorem wire_image
    (h : Runs (Sender.step cr connection.transcriptHash) NoSendDropped (Sender.init connection) w) :
    w.accepted.Nodup ∧
      (∀ id call outcome, w.sends id = some call → call.pc = .done outcome →
        (id ∈ w.accepted ↔ outcome = .ok ())) ∧
      (∃ (frames : List (List UInt8)) (last : List UInt8),
        w.core.shared.wire = frames.flatten ++ last ∧ frames.length = w.accepted.length ∧
        (∀ k id, w.accepted[k]? = some id → ∃ call bytes, w.sends id = some call ∧
          frames[k]? = some bytes ∧
          NumberedFrame cr connection (connection.sendState.sequence.toNat + k) call.plaintext
            bytes) ∧
        (last = [] ∨ ∃ id call bytes, w.sends id = some call ∧ id ∉ w.accepted ∧
          NumberedFrame cr connection (connection.sendState.sequence.toNat + w.accepted.length)
            call.plaintext bytes ∧
          last ≠ [] ∧ last <+: bytes ∧ last ≠ bytes ∧
          ∀ outcome, call.pc = .done outcome → (∃ e, outcome = .error e) ∧
            w.core.shared.state.closed = true ∧
            ∀ w', Runs (Sender.step cr connection.transcriptHash) NoSendDropped w w' →
              w'.core.shared.wire = w.core.shared.wire)) ∧
      w.sendState.sequence.toNat
        = connection.sendState.sequence.toNat + w.committed.length := by
  have hinv := imageInv_of_runs h
  refine ⟨hinv.sender.once.granted_nodup.filter _, ?_, ?_, hinv.counter⟩
  · rintro id call outcome hcall hpc
    have hsame := hinv.sender.succeeded_eq_committed id fun call' prog hcall' hpc' => by
      obtain rfl := Option.some.inj (hcall.symm.trans hcall')
      exact absurd (hpc.symm.trans hpc') (by rintro ⟨⟩)
    rw [hcall, Option.any_some, hpc] at hsame
    cases outcome with
    | ok => exact iff_of_true (hinv.mem_accepted hsame) rfl
    | error e =>
      refine iff_of_false (fun hmem => ?_) (by rintro ⟨⟩)
      exact absurd (hsame.symm.trans (List.mem_filter.mp hmem).2) (by rintro ⟨⟩)
  · obtain ⟨last, hsplit, hlast, -⟩ := hinv.order.torn.wire_split hinv.order.wire
    refine ⟨w.accepted.map fun id => w.core.delivered (.inl id), last, hinv.frames ▸ hsplit,
      List.length_map _, fun k id hk => ?_, ?_⟩
    · obtain ⟨call, hcall, hframe⟩ := hinv.frame_of_succeeded
        (List.mem_filter.mp (List.mem_of_getElem? hk)).2
      have hnumber := congrArg (·[k]?) hinv.accepted_numbers
      simp only [List.getElem?_map, hk, Option.map_some] at hnumber
      have hlt := (List.getElem?_eq_some_iff.mp hk).1
      rw [List.getElem?_range' hlt, Option.some.injEq, Sender.number, hcall] at hnumber
      exact ⟨call, _, hcall, by rw [List.getElem?_map, hk]; rfl, call.sequence,
        by simpa using hnumber, hframe⟩
    · rcases hlast with hnil | ⟨i, -, hne, rfl⟩
      · exact Or.inl hnil
      · obtain ⟨id, call, c, bytes, rfl, hcall, hc, hop, hhanded, hlt, hfailed, hstands, hframe⟩ :=
          hinv.loose hne
        rw [Core.handed_eq hc]
        refine Or.inr ⟨id, call, bytes, hcall, fun hmem => ?_, hframe, hhanded, ?_, fun heq => ?_,
          fun outcome hpc => ?_⟩
        · obtain ⟨-, hsucceeded⟩ := List.mem_filter.mp hmem
          rw [hc, Option.any_some, succeeded_iff] at hsucceeded
          obtain ⟨v, hv⟩ := hsucceeded
          exact hfailed v hv
        · rw [Call.handed, hop]
          exact List.take_prefix _ _
        · have hlen := congrArg List.length heq
          rw [Call.handed, hop, List.length_take] at hlen
          change min c.written bytes.length = bytes.length at hlen
          omega
        · have htorn : w.core.Torn (.inl id) := by
            refine hstands.resolve_right ?_
            rintro ⟨prog, hprog⟩
            exact absurd (hpc.symm.trans hprog) (by simp)
          have hended := (hinv.sender.fit id call hcall).2
          rw [hpc, hc] at hended
          cases outcome with
          | ok =>
            obtain ⟨c', v, hc', hdone⟩ := hended
            obtain rfl := Option.some.inj hc'
            exact absurd (by rw [Call.outcome, hdone]) (hfailed v)
          | error e =>
            obtain ⟨e', hdone⟩ := hended c rfl
            have hsettled := Call.settled (hinv.order.wire.sound _ c hc)
              (show c.outcome = some (.error e') by rw [Call.outcome, hdone])
            refine ⟨⟨e, rfl⟩, ?_, fun w' => hinv.silent htorn⟩
            exact (hsettled.resolve_left fun h0 => hhanded (Call.handed_eq_nil h0)).2.2

/-- The steps that take a call of `send` to the raw stream, with no other call in its way. -/
def toRawStream (id : ℕ) (plaintext : List UInt8) : List (SendLabel ℕ ℕ) :=
  let core (n : ℕ) (choice : Choice) : List (SendLabel ℕ ℕ) :=
    List.replicate n (.core (.poll (.inl id) choice))
  .call id plaintext :: List.replicate 4 (.poll id) ++ core 4 .go ++ core 2 .gate ++ core 5 .go

/-- Two calls of `send`: the connection accepts the frame of the first, and fails in the second. -/
def exampleSends : List (SendLabel ℕ ℕ) :=
  toRawStream 0 [7] ++ [SendLabel.core (.poll (.inl 0) (.accept 30)), .core (.poll (.inl 0) .go)]
    ++ List.replicate 3 (SendLabel.poll 0)
    ++ toRawStream 1 [8, 9] ++ [SendLabel.core (.poll (.inl 1) (.accept 3)),
      .core (.poll (.inl 1) (.fail "broken pipe"))]
    ++ List.replicate 8 (SendLabel.core (.poll (.inl 1) .go)) ++ List.replicate 2 (SendLabel.poll 1)

def exampleSender : Sender ℕ ℕ :=
  (runLabels (Sender.step .transparent (exampleClient 1 1).transcriptHash) (fun _ l => !l.isDrop)
    (Sender.init (exampleClient 1 1)) exampleSends).getD (Sender.init (exampleClient 1 1))

theorem runs_exampleSender :
    Runs (Sender.step .transparent (exampleClient 1 1).transcriptHash) NoSendDropped
      (Sender.init (exampleClient 1 1)) exampleSender :=
  runs_of_runLabels noSendDropped_of_not_isDrop
    (show runLabels _ (fun _ l => !l.isDrop) (Sender.init (exampleClient 1 1)) exampleSends
      = some exampleSender from rfl)

/-- The accepted frame, the torn one and the counter of that run. -/
theorem wire_image_example :
    exampleSender.accepted = [0] ∧ exampleSender.core.shared.wire.length = 33 ∧
      exampleSender.core.shared.state.closed = true ∧ exampleSender.sendState.sequence = 2 ∧
      exampleSender.sendState.sequence.toNat = 1 + exampleSender.committed.length :=
  ⟨rfl, rfl, rfl, rfl, (wire_image runs_exampleSender).2.2.2⟩

end Security

end Taunicorn
