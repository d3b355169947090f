import Taunicorn.Transport.Order

/-!
# The wire of a connection

What the order of the bytes comes to for whoever reads them: the calls that succeed account for
all bytes on the wire but the last ones, and these are a proper prefix of one buffer.

## Main results

* `TornInv.wire_split` — the wire, split, wherever nothing follows a torn prefix
* `wire_in_gate_order` — the wire of a run without dropped writers
-/

namespace Taunicorn

namespace Transport

variable {ι : Type} {core : Core ι} {id : ι} {barrier : Barrier}

/-- Two accounts of a list that agree but for one entry, with nothing behind it. -/
theorem flatMap_split {α β : Type} {f g : α → List β} {l : List α}
    (hpair : l.Pairwise fun a b => f a ≠ g a → f b = [])
    (hg : ∀ a ∈ l, f a ≠ g a → g a = []) :
    ∃ last, l.flatMap f = l.flatMap g ++ last ∧ (last = [] ∨ ∃ a ∈ l, f a ≠ g a ∧ last = f a) ∧
      ∀ a ∈ l, f a ≠ g a → last = f a := by
  induction l with
  | nil => exact ⟨[], rfl, Or.inl rfl, fun a ha => absurd ha List.not_mem_nil⟩
  | cons a l ih =>
    obtain ⟨hhead, htail⟩ := List.pairwise_cons.mp hpair
    by_cases ha : f a = g a
    · obtain ⟨last, hsplit, hlast, honly⟩ := ih htail fun b hb => hg b (List.mem_cons_of_mem _ hb)
      refine ⟨last, by rw [List.flatMap_cons, List.flatMap_cons, hsplit, ha, List.append_assoc],
        hlast.imp_right fun ⟨b, hb, h⟩ => ⟨b, List.mem_cons_of_mem _ hb, h⟩, fun b hb hne => ?_⟩
      rcases List.mem_cons.mp hb with rfl | hb
      · exact absurd ha hne
      · exact honly b hb hne
    · have hf : ∀ b ∈ l, f b = [] := fun b hb => hhead b hb ha
      have heq : ∀ b ∈ l, g b = f b := fun b hb => by
        by_contra hne
        exact hne (by rw [hf b hb, hg b (List.mem_cons_of_mem _ hb) (Ne.symm hne)])
      refine ⟨f a, ?_, Or.inr ⟨a, List.mem_cons_self, ha, rfl⟩, fun b hb hne => ?_⟩
      · rw [List.flatMap_cons, List.flatMap_cons, List.flatMap_congr heq,
          List.flatMap_eq_nil_iff.mpr hf, hg a List.mem_cons_self ha]
        simp
      · rcases List.mem_cons.mp hb with rfl | hb
        · rfl
        · exact absurd (heq b hb).symm hne

/-- A call that has handed over bytes, has no result and is not under way is torn. -/
theorem WireInv.torn_of_not_live (hinv : WireInv core) (hcall : core.calls id = some call)
    (hhanded : call.handed ≠ []) (hfailed : ∀ v, call.outcome ≠ some (.ok v))
    (hlive : ¬call.pc.Live) : core.Torn id := by
  refine ⟨call, hcall, hhanded, ?_⟩
  have hsound := hinv.sound id call hcall
  unfold Call.outcome at hfailed
  cases hpc : call.pc <;> rw [hpc] at hlive hfailed hsound
  case dropped => exact Or.inl rfl
  case done outcome =>
    cases outcome with
    | ok v => exact absurd rfl (hfailed v)
    | error e => exact Or.inr ⟨e, rfl⟩
  case panicked => exact absurd (Call.handed_eq_nil hsound) hhanded
  all_goals exact absurd trivial hlive

/-- **A call that has handed over what it does not account for** has handed over a proper prefix
of its buffer, and has not succeeded. It holds the gate, or is torn. -/
theorem WireInv.loose (hinv : WireInv core) (h : core.handed id ≠ core.delivered id) :
    ∃ call, core.calls id = some call ∧ call.handed ≠ [] ∧ core.delivered id = [] ∧
      (∀ v, call.outcome ≠ some (.ok v)) ∧ call.written < call.op.buffer.length ∧
      (core.Torn id ∨ core.shared.writeGate.holder = some id) := by
  cases hcall : core.calls id with
  | none => simp [Core.handed, Core.delivered, hcall] at h
  | some call =>
    have hsound := hinv.sound id call hcall
    have hfailed : ∀ v, call.outcome ≠ some (.ok v) := by
      rintro v hv
      have hsettled : call.op.buffer.take call.written = _ := (Call.settled hsound hv).1
      refine h ?_
      rw [Core.handed_eq hcall, Call.handed, hsettled]
      simp only [Core.delivered, hcall, hv]
    have hdelivered : core.delivered id = [] := by
      simp only [Core.delivered, hcall]
    have hhanded : call.handed ≠ [] := by
      rwa [hdelivered, Core.handed_eq hcall] at h
    have hwritten : call.written ≠ 0 := fun h0 => hhanded (Call.handed_eq_nil h0)
    refine ⟨call, rfl, hhanded, hdelivered, hfailed, ?_, ?_⟩
    · unfold Call.outcome at hfailed
      cases hpc : call.pc <;> rw [hpc] at hsound hfailed
      case io => exact (hsound.resolve_left hwritten).2
      case closing => exact (hsound.1.resolve_left hwritten).2
      case dropped => exact (hsound.resolve_left hwritten).2
      case unwind outcome =>
        cases outcome with
        | ok v => exact absurd rfl (hfailed v)
        | error e => exact (hsound.resolve_left hwritten).2.1
      case done outcome =>
        cases outcome with
        | ok v => exact absurd rfl (hfailed v)
        | error e => exact (hsound.resolve_left hwritten).2.1
      all_goals exact absurd hsound hwritten
    · by_cases hlive : call.pc.Live
      · have hat := hinv.at_place id
        rw [Core.place_eq hcall,
          Call.place_of_handed hsound (hinv.typed id call hcall) hhanded hlive]
          at hat
        exact Or.inr hat
      · exact Or.inl (hinv.torn_of_not_live hcall hhanded hfailed hlive)

/-- Where nothing follows a torn prefix, nothing follows any prefix. -/
theorem TornInv.loose_last (htorn : TornInv barrier core) (hinv : WireInv core) :
    core.shared.writeGate.granted.Pairwise
      fun i j => core.handed i ≠ core.delivered i → core.handed j = [] := by
  cases hholder : core.shared.writeGate.holder with
  | none =>
    refine htorn.last.imp fun {i j} hij hi => hij ?_
    obtain ⟨-, -, -, -, -, -, h | h⟩ := hinv.loose hi
    · exact h
    · exact absurd (hholder.symm.trans h) nofun
  | some id =>
    obtain ⟨before, hbefore, hmem⟩ := hinv.once.holder_last hholder
    have htornOf : ∀ i ∈ before, core.handed i ≠ core.delivered i → core.Torn i := by
      intro i hi hne
      obtain ⟨-, -, -, -, -, -, h | h⟩ := hinv.loose hne
      · exact h
      · exact absurd (Option.some.inj (hholder.symm.trans h) ▸ hi) hmem
    have hlast := htorn.last
    rw [hbefore, List.pairwise_append] at hlast ⊢
    exact ⟨hlast.1.imp_of_mem fun hi _ hij hne => hij (htornOf _ hi hne),
      List.pairwise_singleton _ _, fun i hi j hj hne => hlast.2.2 i hi j hj (htornOf i hi hne)⟩

/-- **The wire, split**: what the calls account for, and then what one of them does not. -/
theorem TornInv.wire_split (htorn : TornInv barrier core) (hinv : WireInv core) :
    ∃ last, core.shared.wire = core.shared.writeGate.granted.flatMap core.delivered ++ last ∧
      (last = [] ∨ ∃ id ∈ core.shared.writeGate.granted,
        core.handed id ≠ core.delivered id ∧ last = core.handed id) ∧
      ∀ id, core.handed id ≠ core.delivered id → last = core.handed id := by
  obtain ⟨last, hsplit, hlast, honly⟩ := flatMap_split (htorn.loose_last hinv) fun i _ hne =>
    (hinv.loose hne).choose_spec.2.2.1
  refine ⟨last, hinv.wire.trans hsplit, hlast, fun id hne => honly id (hinv.mem id ?_) hne⟩
  obtain ⟨call, hcall, hhanded, -⟩ := hinv.loose hne
  rwa [Core.handed_eq hcall]

/-- A call that accounts for bytes was given the gate. -/
theorem WireInv.mem_of_delivered (hinv : WireInv core) (h : core.delivered id ≠ []) :
    id ∈ core.shared.writeGate.granted := by
  refine hinv.mem id fun hnil => ?_
  have hne : core.handed id ≠ core.delivered id := hnil ▸ Ne.symm h
  obtain ⟨-, -, -, hdelivered, -⟩ := hinv.loose hne
  exact h hdelivered

variable [DecidableEq ι]

/-- **The wire of a connection.** In every run that drops no writer, the bytes handed to the raw
stream are, in the order in which calls were given the write gate, what the successful calls
account for, and then at most a proper prefix of the buffer of one call that has not succeeded. A
call that fails has handed over nothing; or it owns that prefix, and the connection is closed. -/
theorem wire_in_gate_order (h : Runs Core.step KeepsWriters {} core) :
    core.shared.writeGate.granted.Nodup ∧
      (∀ id, core.delivered id ≠ [] → id ∈ core.shared.writeGate.granted) ∧
      ∃ last,
        core.shared.wire = core.shared.writeGate.granted.flatMap core.delivered ++ last ∧
        (last = [] ∨ ∃ id call, id ∈ core.shared.writeGate.granted ∧ core.calls id = some call ∧
          (∀ v, call.outcome ≠ some (.ok v)) ∧ last <+: call.op.buffer ∧
          last ≠ call.op.buffer) ∧
        ∀ id call e, core.calls id = some call → call.outcome = some (.error e) →
          call.handed = [] ∨ core.shared.state.closed = true ∧ last = call.handed := by
  obtain ⟨hinv, htorn, -⟩ := orderInv_of_runs h
  obtain ⟨last, hsplit, hlast, honly⟩ := htorn.wire_split hinv
  refine ⟨hinv.once.granted_nodup, fun id => hinv.mem_of_delivered, last, hsplit, ?_,
    fun id call e hcall he => ?_⟩
  · rcases hlast with hnil | ⟨id, hmem, hne, heq⟩
    · exact Or.inl hnil
    · obtain ⟨call, hcall, -, -, hfailed, hlt, -⟩ := hinv.loose hne
      rw [Core.handed_eq hcall] at heq
      refine Or.inr ⟨id, call, hmem, hcall, hfailed, heq ▸ List.take_prefix _ _, fun hbuffer => ?_⟩
      have hlen := congrArg List.length (heq.symm.trans hbuffer)
      rw [Call.handed, List.length_take] at hlen
      omega
  · have hsettled := Call.settled (hinv.sound id call hcall) he
    by_cases hhanded : call.handed = []
    · exact Or.inl hhanded
    · have hclosed := (hsettled.resolve_left fun h0 => hhanded (Call.handed_eq_nil h0)).2.2
      have hdelivered : core.delivered id = [] := by simp only [Core.delivered, hcall, he]
      have heq := Core.handed_eq hcall
      refine Or.inr ⟨hclosed, ?_⟩
      rw [← heq] at hhanded ⊢
      exact honly id (by rwa [hdelivered])

/-- Two sends: the first succeeds after two partial writes, the second fails after one. -/
def exampleRun : List (Label ℕ) :=
  let enter (id : ℕ) : List (Label ℕ) :=
    .call id (.send [1, 2, 3]) :: List.replicate 4 (.poll id .go)
  enter 0 ++ [Label.poll 0 .gate, .poll 0 .gate] ++ enter 1 ++ [Label.poll 1 .gate]
    ++ List.replicate 5 (Label.poll 0 .go)
    ++ [Label.poll 0 (.accept 1), .poll 0 (.accept 2), .poll 0 .go]
    ++ [Label.poll 1 .gate] ++ List.replicate 5 (Label.poll 1 .go)
    ++ [Label.poll 1 (.accept 2), .poll 1 (.fail "broken pipe")]
    ++ List.replicate 8 (Label.poll 1 .go)

def exampleCore : Core ℕ := (runLabels Core.step (fun _ l => !l.isDrop) {} exampleRun).getD {}

theorem runs_exampleCore : Runs Core.step KeepsWriters {} exampleCore :=
  runs_of_runLabels keepsWriters_of_not_isDrop
    (show runLabels Core.step (fun _ l => !l.isDrop) {} exampleRun = some exampleCore from rfl)

/-- The gate order, the torn prefix and the closed connection of that run. -/
theorem wire_in_gate_order_example :
    exampleCore.shared.wire = [1, 2, 3, 1, 2] ∧ exampleCore.shared.state.closed = true ∧
      exampleCore.delivered 0 = [1, 2, 3] ∧ exampleCore.handed 1 = [1, 2] ∧
      exampleCore.shared.writeGate.granted.Nodup :=
  ⟨rfl, rfl, rfl, rfl, (wire_in_gate_order runs_exampleCore).1⟩

end Transport

end Taunicorn
