import Taunicorn.Lib.Handoff
import Taunicorn.Python.Ownership

/-!
# No session without an owner

`establish` takes the connection out of the wrapper, and its caller waits on the event loop for the
session. The result may be discarded on its way: the Future can be cancelled when the handshake has
made a session and put it into the slot. The observer of the Future cancels the token then, and a
session whose token is cancelled is terminal.

Three parties take turns: the block of `establish` on its runtime, the event loop, which posts and
delivers the result and runs the callbacks of the Future, and everybody else, who may cancel the
Future or the token at any moment. The wrapper is that of the raw connection, with all its calls.

## Main results

* `Wrapper.lasts` — what no step takes back
* `EstablishInv.step` — the invariant of an upgrade and its Future
* `no_orphaned_session` — an upgrade ends with an owner, or with its token cancelled
-/

namespace Taunicorn

namespace Python

open Transport

/-! ### Turns of an upgrade -/

/-- How many polls the block has left, at most. -/
def UpgradePC.polls : UpgradePC → ℕ
  | .handshake => 3
  | .made => 2
  | .finished => 1
  | .failing => 1
  | .returned => 0
  | .ended => 0

/-- The block has returned. -/
def Upgrade.hasEnded (u : Upgrade) : Bool := u.pc.polls = 0

variable {ι : Type} [DecidableEq ι]

/-- `establish` with its Futures. The runtime may drop a block whose Future is known to be
cancelled, and the observer of a cancelled Future cancels the token. -/
def establishBridge : Bridge (Wrapper ι) (OwnLabel ι) ι where
  step := Wrapper.step
  drops
    | .dropUpgrade id => some id
    | _ => none
  awaits w id := (w.upgrades id).isSome
  finished w id := (w.upgrades id).any Upgrade.hasEnded
  called := Wrapper.cancelToken

/-- The wrapper and the Futures, and a history. -/
abbrev Established (ι : Type) := Bridged (Wrapper ι) ι × List (BridgeLabel (OwnLabel ι) ι)

/-- The turns of the upgrade and of its Future. -/
def isOwn (id : ι) : BridgeLabel (OwnLabel ι) ι → Bool
  | .inner (.upgrade i _) => i = id
  | .inner (.dropUpgrade i) => i = id
  | .callback i => i = id
  | .observe i => i = id
  | .post i => i = id
  | .deliver i => i = id
  | _ => false

def turnsOf (id : ι) (_ : Bridged (Wrapper ι) ι) (label : BridgeLabel (OwnLabel ι) ι) :
    List (BridgeLabel (OwnLabel ι) ι) :=
  if isOwn id label then [label] else []

/-- One step, with a history of the turns of one upgrade. -/
abbrev establishStep (id : ι) :
    Established ι → BridgeLabel (OwnLabel ι) ι → Option (Established ι) :=
  withHistory establishBridge.bridgeStep (turnsOf id)

def Wrapper.polls (w : Wrapper ι) (id : ι) : ℕ := (w.upgrades id).elim 3 fun u => u.pc.polls

/-- The turns that are left, at most. -/
def turnsLeft (b : Bridged (Wrapper ι) ι) (id : ι) : ℕ := b.inner.polls id + (b.futures id).turns

/-! ### Where an upgrade may end -/

/-- The handshake has not answered, and nobody has cancelled it. -/
def InHandshake (w : Wrapper ι) (id : ι) : Prop := w.upgrades id = some ⟨.handshake, false⟩

/-- A turn that nothing holds up: it is not the answer of the handshake. -/
def Due (b : Bridged (Wrapper ι) ι) (id : ι) (label : BridgeLabel (OwnLabel ι) ι) : Prop :=
  isOwn id label = true ∧ (establishBridge.bridgeStep b label).isSome = true ∧
    ∀ answer, label = .inner (.upgrade id answer) → ¬InHandshake b.inner id

/-- The session is in the slot, and it was delivered. -/
def Owned (b : Bridged (Wrapper ι) ι) (id : ι) : Prop :=
  b.inner.slot = .secure id ∧ (b.futures id).phase = .delivered ∧
    (b.futures id).cancelled = false

/-- The token is cancelled, and neither the connection nor a session can be used. -/
def Disowned (b : Bridged (Wrapper ι) ι) (id : ι) : Prop :=
  b.inner.cancelled id = true ∧ Unusable b.inner

variable {w w' : Wrapper ι} {id i : ι} {u v : Upgrade} {label : OwnLabel ι} {answer : Bool}

/-! ### Steps of the wrapper -/

/-- Nothing of an upgrade is taken back: neither a poll of its block, nor a cancellation. -/
def Upgrade.Lasts (u v : Upgrade) : Prop :=
  v.pc.polls ≤ u.pc.polls ∧ (u.cancelled = true → v.cancelled = true)

omit [DecidableEq ι] in
theorem Wrapper.cancelled_of_some (hu : w.upgrades id = some u) : w.cancelled id = u.cancelled := by
  rw [Wrapper.cancelled, hu, Option.any_some]

/-- Every poll of the block brings it nearer to its end. -/
theorem Wrapper.pollUpgrade_turn (h : w.pollUpgrade id u answer = some w') :
    ∃ v, w'.upgrades = Function.update w.upgrades id (some v) ∧ v.pc.polls < u.pc.polls ∧
      (u.cancelled = true → v.cancelled = true) := by
  unfold Wrapper.pollUpgrade at h
  split at h
  · next hpc =>
    cases h
    refine ⟨_, rfl, ?_, fun h => h⟩
    dsimp only
    split <;> simp [hpc, UpgradePC.polls]
  · next hpc =>
    split at h
    · next w₁ hfinish =>
      obtain ⟨token, -, -, rfl⟩ := finishSecure_eq_ok.mp hfinish
      cases h
      exact ⟨_, rfl, by simp [hpc, UpgradePC.polls], fun h => h⟩
    · cases h
      exact ⟨_, rfl, by simp [hpc, UpgradePC.polls], fun h => h⟩
  · next hpc =>
    cases h
    exact ⟨_, rfl, by simp [hpc, UpgradePC.polls], fun h => h⟩
  · next hpc =>
    cases h
    exact ⟨_, rfl, by simp [hpc, UpgradePC.polls], fun _ => rfl⟩
  · exact absurd h (by simp)
  · exact absurd h (by simp)

/-- A block that has not ended can be polled. -/
theorem Wrapper.pollUpgrade_isSome (h : u.hasEnded = false) :
    (w.pollUpgrade id u answer).isSome = true := by
  unfold Wrapper.pollUpgrade
  split
  · rfl
  · split <;> rfl
  · rfl
  · rfl
  · next hpc => simp [Upgrade.hasEnded, hpc, UpgradePC.polls] at h
  · next hpc => simp [Upgrade.hasEnded, hpc, UpgradePC.polls] at h

theorem Wrapper.cancelToken_lasts (hu : w.upgrades i = some u) :
    ∃ v, (w.cancelToken id).upgrades i = some v ∧ u.Lasts v := by
  by_cases hi : i = id
  · subst hi
    exact ⟨_, Wrapper.cancelToken_self hu, le_refl _, fun _ => rfl⟩
  · exact ⟨u, (Wrapper.cancelToken_of_ne hi).trans hu, le_refl _, fun h => h⟩

/-- **What no step takes back.** -/
theorem Wrapper.lasts (h : w.step label = some w') (hu : w.upgrades i = some u) :
    ∃ v, w'.upgrades i = some v ∧ u.Lasts v := by
  cases Wrapper.moved h with
  | kept _ _ _ _ hupgrades => exact ⟨u, hupgrades ▸ hu, le_refl _, fun h => h⟩
  | cancelled _ _ id _ _ hupgrades =>
    rw [hupgrades]
    exact Wrapper.cancelToken_lasts hu
  | polled _ _ id u₁ answer _ hu₁ hpoll =>
    obtain ⟨v, hv, hlt, hcancelled⟩ := Wrapper.pollUpgrade_turn hpoll
    rw [hv]
    by_cases hi : i = id
    · subst hi
      obtain rfl := Option.some.inj (hu₁.symm.trans hu)
      exact ⟨v, Function.update_self .., hlt.le, hcancelled⟩
    · exact ⟨u, (Function.update_of_ne hi ..).trans hu, le_refl _, fun h => h⟩
  | refused _ _ => exact ⟨u, hu, le_refl _, fun h => h⟩
  | split _ _ => exact ⟨u, hu, le_refl _, fun h => h⟩
  | began id _ _ hnone =>
    have hi : i ≠ id := fun hi => Option.some_ne_none _ ((hi ▸ hu).symm.trans hnone)
    exact ⟨u, (Function.update_of_ne hi ..).trans hu, le_refl _, fun h => h⟩

theorem UpgradePC.polls_le (pc : UpgradePC) : pc.polls ≤ 3 := by
  cases pc <;> decide

theorem Wrapper.polls_le_of_step (h : w.step label = some w') (id : ι) :
    w'.polls id ≤ w.polls id := by
  unfold Wrapper.polls
  cases hu : w.upgrades id with
  | some u =>
    obtain ⟨v, hv, hle, -⟩ := Wrapper.lasts h hu
    rw [hv]
    exact hle
  | none =>
    cases w'.upgrades id with
    | none => exact le_refl _
    | some v => exact v.pc.polls_le

/-- A poll of the block. -/
theorem Wrapper.polls_lt_of_upgrade (h : w.step (.upgrade id answer) = some w') :
    w'.polls id < w.polls id := by
  obtain ⟨u, hu, hpoll⟩ := Option.bind_eq_some_iff.mp h
  obtain ⟨v, hv, hlt, -⟩ := Wrapper.pollUpgrade_turn hpoll
  rw [Wrapper.polls, Wrapper.polls, hu, hv, Function.update_self]
  exact hlt

/-- A drop is a turn of the block as well. -/
theorem Wrapper.polls_lt_of_dropUpgrade (h : w.step (.dropUpgrade id) = some w') :
    w'.polls id < w.polls id := by
  simp only [Wrapper.step] at h
  split at h
  · next u hu =>
    split_ifs at h with hpc
    cases h
    simp [Wrapper.polls, Wrapper.setUpgrade, hu, hpc, UpgradePC.polls]
  · exact absurd h (by simp)

theorem Wrapper.cancelled_stays (h : w.step label = some w') (hcancelled : w.cancelled i = true) :
    w'.cancelled i = true := by
  obtain ⟨u, hu, htoken⟩ := (Option.any_eq_true ..).mp hcancelled
  obtain ⟨v, hv, -, hkept⟩ := Wrapper.lasts h hu
  rw [Wrapper.cancelled_of_some hv]
  exact hkept htoken

theorem Wrapper.hasEnded_stays (h : w.step label = some w')
    (hended : (w.upgrades i).any Upgrade.hasEnded = true) :
    (w'.upgrades i).any Upgrade.hasEnded = true := by
  obtain ⟨u, hu, hpolls⟩ := (Option.any_eq_true ..).mp hended
  obtain ⟨v, hv, hle, -⟩ := Wrapper.lasts h hu
  rw [hv, Option.any_some, Upgrade.hasEnded, decide_eq_true_eq]
  exact Nat.le_zero.mp (hle.trans (of_decide_eq_true hpolls).le)

/-! ### The invariant -/

/-- **The invariant of an upgrade and its Future.** -/
structure EstablishInv (x : Established ι) (id : ι) : Prop where
  own : OwnInv x.1.inner
  sound : (x.1.futures id).Sound
  /-- Only the Future of a call can be cancelled, -/
  awaits : (x.1.futures id).cancelled = true → x.1.inner.upgrades id ≠ none
  told : (x.1.futures id).told = true → (x.1.futures id).cancelled = true
  /-- and its observer has cancelled the token. -/
  observed : (x.1.futures id).observed = true → x.1.inner.cancelled id = true
  posted : (x.1.futures id).phase ≠ .running →
    (x.1.inner.upgrades id).any Upgrade.hasEnded = true
  count : x.2.length + turnsLeft x.1 id ≤ 7

omit [DecidableEq ι] in
theorem establishInv_init (id : ι) : EstablishInv (({ inner := {} }, []) : Established ι) id where
  own := ownInv_init
  sound := ⟨by simp, by simp⟩
  awaits h := absurd h (by simp)
  told h := absurd h (by simp)
  observed h := absurd h (by simp)
  posted h := absurd rfl h
  count := le_refl _

variable {x x' : Established ι} {b b' : Bridged (Wrapper ι) ι} {f : Handoff}
  {turn : BridgeLabel (OwnLabel ι) ι} {history : List (BridgeLabel (OwnLabel ι) ι)}

/-- A step of the wrapper. -/
theorem EstablishInv.inner (hinv : EstablishInv x id) (h : x.1.inner.step label = some w') :
    EstablishInv ({ x.1 with inner := w' }, x.2 ++ turnsOf id x.1 (.inner label)) id where
  own := hinv.own.step h
  sound := hinv.sound
  awaits hcancelled := by
    obtain ⟨u, hu⟩ := Option.ne_none_iff_exists'.mp (hinv.awaits hcancelled)
    obtain ⟨v, hv, -⟩ := Wrapper.lasts h hu
    exact hv ▸ Option.some_ne_none v
  told := hinv.told
  observed hobserved := Wrapper.cancelled_stays h (hinv.observed hobserved)
  posted hposted := Wrapper.hasEnded_stays h (hinv.posted hposted)
  count := by
    have hcount := hinv.count
    have hturn : (turnsOf id x.1 (.inner label)).length + w'.polls id ≤ x.1.inner.polls id := by
      by_cases hown : isOwn id (.inner label) = true
      · rw [turnsOf, if_pos hown, List.length_singleton, Nat.add_comm, Nat.add_one_le_iff]
        cases label with
        | upgrade i answer =>
          obtain rfl : i = id := of_decide_eq_true hown
          exact Wrapper.polls_lt_of_upgrade h
        | dropUpgrade i =>
          obtain rfl : i = id := of_decide_eq_true hown
          exact Wrapper.polls_lt_of_dropUpgrade h
        | _ => exact absurd hown Bool.false_ne_true
      · rw [turnsOf, if_neg hown, List.length_nil, Nat.zero_add]
        exact Wrapper.polls_le_of_step h id
    rw [List.length_append]
    change x.2.length + _ + (w'.polls id + (x.1.futures id).turns) ≤ 7
    unfold turnsLeft at hcount
    omega

/-- What an observer does. -/
theorem EstablishInv.cancelToken (hinv : EstablishInv x id) :
    EstablishInv ({ x.1 with inner := x.1.inner.cancelToken i }, x.2) id := by
  cases hi : x.1.inner.upgrades i with
  | some u =>
    have hstep : x.1.inner.step (.cancelToken i) = some (x.1.inner.cancelToken i) := by
      simp only [Wrapper.step, hi]
    have hnext := hinv.inner hstep
    rw [turnsOf, if_neg (by simp [isOwn]), List.append_nil] at hnext
    exact hnext
  | none =>
    have hsame : x.1.inner.cancelToken i = x.1.inner := by
      rw [Wrapper.cancelToken, hi, Option.map_none, ← hi, Function.update_eq_self]
    rw [hsame]
    exact hinv

/-- A step of the Future. -/
theorem EstablishInv.set (hinv : EstablishInv x id) (hsound : f.Sound)
    (hawaits : f.cancelled = true → x.1.inner.upgrades id ≠ none)
    (htold : f.told = true → f.cancelled = true)
    (hobserved : f.observed = true → x.1.inner.cancelled id = true)
    (hposted : f.phase ≠ .running → (x.1.inner.upgrades id).any Upgrade.hasEnded = true)
    (hcount : history.length + f.turns ≤ x.2.length + (x.1.futures id).turns) :
    EstablishInv (x.1.set id f, history) id := by
  have hself := x.1.set_self id f
  refine ⟨hinv.own, ?_, ?_, ?_, ?_, ?_, ?_⟩
  · exact hself.symm ▸ hsound
  · exact hself.symm ▸ hawaits
  · exact hself.symm ▸ htold
  · exact hself.symm ▸ hobserved
  · exact hself.symm ▸ hposted
  · have hle := hinv.count
    have hleft : turnsLeft (x.1.set id f) id = x.1.inner.polls id + f.turns := by
      rw [turnsLeft, hself]
      rfl
    unfold turnsLeft at hle
    dsimp only
    omega

/-- The Future of another call. -/
theorem EstablishInv.set_of_ne (hinv : EstablishInv x id) (hi : id ≠ i) :
    EstablishInv (x.1.set i f, x.2) id := by
  have hother := x.1.set_of_ne f hi
  refine ⟨hinv.own, ?_, ?_, ?_, ?_, ?_, ?_⟩
  · exact hother.symm ▸ hinv.sound
  · exact hother.symm ▸ hinv.awaits
  · exact hother.symm ▸ hinv.told
  · exact hother.symm ▸ hinv.observed
  · exact hother.symm ▸ hinv.posted
  · have hle := hinv.count
    unfold turnsLeft at hle ⊢
    rw [hother]
    exact hle

/-- A turn of a Future, its own or another's. -/
theorem EstablishInv.loop (hinv : EstablishInv x id)
    (hown : i = id → EstablishInv (x.1.set id f, x.2 ++ [turn]) id)
    (hturn : isOwn id turn = decide (i = id)) :
    EstablishInv (x.1.set i f, x.2 ++ turnsOf id x.1 turn) id := by
  by_cases hi : i = id
  · rw [turnsOf, if_pos (hturn.trans (decide_eq_true hi)), hi]
    exact hown hi
  · rw [turnsOf, if_neg (by simp [hturn, hi]), List.append_nil]
    exact hinv.set_of_ne (Ne.symm hi)

omit [DecidableEq ι] in
theorem length_concat_add_le {n m : ℕ} (h : n < m) :
    (history ++ [turn]).length + n ≤ history.length + m := by
  rw [List.length_append, List.length_singleton]
  omega

/-- **The step.** -/
theorem EstablishInv.step (hinv : EstablishInv x id)
    (h : establishStep id x turn = some x') : EstablishInv x' id := by
  obtain ⟨hstep, hhistory⟩ := withHistory_eq_some.mp h
  obtain ⟨b', history⟩ := x'
  obtain rfl : history = x.2 ++ turnsOf id x.1 turn := hhistory
  dsimp only at hstep
  cases Bridge.stepped hstep with
  | inner label w' hinner _ => exact hinv.inner hinner
  | cancelled i f hawaits hf =>
    rw [turnsOf, if_neg (by simp [isOwn]), List.append_nil]
    by_cases hi : i = id
    · subst hi
      obtain ⟨-, hphase, rfl⟩ := Handoff.cancel_eq_some hf
      have hsome : x.1.inner.upgrades i ≠ none := Option.ne_none_iff_isSome.mpr hawaits
      exact hinv.set (.cancel hf) (fun _ => hsome) (fun _ => rfl) hinv.observed hinv.posted
        (le_refl _)
    · exact hinv.set_of_ne (Ne.symm hi)
  | told i f hf =>
    refine hinv.loop (fun hi => ?_) rfl
    subst hi
    obtain ⟨hcancelled, rfl⟩ := Handoff.callback_eq_some hf
    exact hinv.set (hinv.sound.callback hf) hinv.awaits (fun _ => hcancelled) hinv.observed
      hinv.posted (length_concat_add_le (Handoff.turns_callback hf))
  | observed i f hf =>
    refine hinv.cancelToken.loop (fun hi => ?_) rfl
    subst hi
    have hcalled := hinv.cancelToken (i := i)
    obtain ⟨htold, rfl⟩ := Handoff.observe_eq_some hf
    have hsome := hinv.awaits (hinv.told htold)
    obtain ⟨u, hu⟩ := Option.ne_none_iff_exists'.mp hsome
    exact hcalled.set (hinv.sound.observe hf) hcalled.awaits hinv.told
      (fun _ => Wrapper.cancelled_of_some (Wrapper.cancelToken_self hu)) hcalled.posted
      (length_concat_add_le (Handoff.turns_observe hf))
  | posted i f hawaits hfinished hf =>
    refine hinv.loop (fun hi => ?_) rfl
    subst hi
    obtain ⟨-, rfl⟩ := Handoff.post_eq_some hf
    exact hinv.set (.post hf) hinv.awaits hinv.told hinv.observed (fun _ => hfinished)
      (length_concat_add_le (Handoff.turns_post hf))
  | delivered i f hf =>
    refine hinv.loop (fun hi => ?_) rfl
    subst hi
    obtain ⟨hposted, rfl⟩ := Handoff.deliver_eq_some hf
    exact hinv.set (.deliver hf) hinv.awaits hinv.told hinv.observed
      (fun _ => hinv.posted (by rw [hposted]; simp))
      (length_concat_add_le (Handoff.turns_deliver hf))

theorem establishInv_of_runs {allowed : Established ι → BridgeLabel (OwnLabel ι) ι → Prop}
    (h : Runs (establishStep id) allowed ({ inner := {} }, []) x) : EstablishInv x id :=
  h.invariant (fun x => EstablishInv x id) (establishInv_init id) fun _ _ _ hinv _ => hinv.step

/-! ### The end of an upgrade -/

/-- Until an upgrade has ended, it has a turn. -/
theorem due_of_block (hu : b.inner.upgrades id = some u) (hended : u.hasEnded = false)
    (hanswered : ¬InHandshake b.inner id) : Due b id (.inner (.upgrade id false)) := by
  refine ⟨decide_eq_true rfl, ?_, fun _ _ => hanswered⟩
  have hpoll : (b.inner.step (.upgrade id false)).isSome = true := by
    simp only [Wrapper.step, hu, Option.bind_some]
    exact Wrapper.pollUpgrade_isSome hended
  obtain ⟨w', hw⟩ := Option.isSome_iff_exists.mp hpoll
  simp [Bridge.bridgeStep, Bridge.allows, establishBridge, hw]

/-- A Future that was cancelled has a turn until its token is cancelled. -/
theorem EstablishInv.due_of_cancelled (hinv : EstablishInv x id)
    (hcancelled : (x.1.futures id).cancelled = true) (hopen : x.1.inner.cancelled id = false) :
    ∃ label, Due x.1 id label := by
  have hobserved : (x.1.futures id).observed = false := by
    by_contra hobserved
    rw [Bool.not_eq_false] at hobserved
    exact absurd ((hinv.observed hobserved).symm.trans hopen) (by simp)
  rcases Handoff.owes_observer hcancelled hobserved with hturn | hturn
  · exact ⟨.callback id, decide_eq_true rfl, by simpa [Bridge.bridgeStep] using hturn, by simp⟩
  · exact ⟨.observe id, decide_eq_true rfl, by simpa [Bridge.bridgeStep] using hturn, by simp⟩

omit [DecidableEq ι] in
theorem EstablishInv.disowned (hinv : EstablishInv x id)
    (hcancelled : x.1.inner.cancelled id = true) : Disowned x.1 id := by
  obtain ⟨u, hu, htoken⟩ := (Option.any_eq_true ..).mp hcancelled
  exact ⟨hcancelled, hinv.own.unusable ⟨u, hu, Or.inl htoken⟩⟩

/-- **A block that has ended**: its result is on its way, it was delivered, or the token is
cancelled. -/
theorem EstablishInv.settled_of_ended (hinv : EstablishInv x id)
    (hu : x.1.inner.upgrades id = some u) (hended : u.hasEnded = true)
    (hopen : x.1.inner.cancelled id = false) :
    (∃ label, Due x.1 id label) ∨ Owned x.1 id := by
  have hfinished : establishBridge.finished x.1.inner id = true := by
    simp only [establishBridge, hu, Option.any_some, hended]
  have hawaits : establishBridge.awaits x.1.inner id = true := by
    simp only [establishBridge, hu, Option.isSome_some]
  cases hphase : (x.1.futures id).phase with
  | running =>
    refine Or.inl ⟨.post id, decide_eq_true rfl, ?_, by simp⟩
    simp [Bridge.bridgeStep, Handoff.post, hphase, hfinished, hawaits]
  | posted =>
    refine Or.inl ⟨.deliver id, decide_eq_true rfl, ?_, by simp⟩
    simp [Bridge.bridgeStep, Handoff.deliver, hphase]
  | discarded => exact Or.inl (hinv.due_of_cancelled (hinv.sound.discarded hphase) hopen)
  | delivered =>
    refine Or.inr ⟨?_, hphase, hinv.sound.delivered hphase⟩
    rcases hinv.own.upgrade id u hu with ⟨-, hne, hne'⟩ | ⟨hslot, -⟩
    · -- an upgrade that has failed has cancelled its token
      have hpc : u.pc = .ended := by
        cases hpc : u.pc <;> simp_all [Upgrade.hasEnded, UpgradePC.polls]
      have htoken := hinv.own.ended id u hu hpc
      rw [Wrapper.cancelled_of_some hu, htoken] at hopen
      exact absurd hopen (by simp)
    · exact hslot

/-- A session that is in the slot stays there. -/
theorem OwnInv.secure_stays (hinv : OwnInv w) (h : w.step label = some w')
    (hslot : w.slot = .secure id) : w'.slot = .secure id := by
  have hmove := hinv.slotMove h
  rw [hslot] at hmove
  generalize w'.slot = slot at hmove
  cases hmove
  rfl

/-- A delivered session stays delivered. -/
theorem EstablishInv.owned_stays (hinv : EstablishInv x id) (hown : Owned x.1 id)
    (h : establishStep id x turn = some x') : Owned x'.1 id := by
  obtain ⟨hslot, hphase, hopen⟩ := hown
  obtain ⟨hstep, -⟩ := withHistory_eq_some.mp h
  have htold : (x.1.futures id).told = false := by
    by_contra htold
    have hcancelled := hinv.told (Bool.not_eq_false _ ▸ htold)
    exact absurd (hopen.symm.trans hcancelled) (by simp)
  have hkept := Bridge.delivered_stays hstep hphase hopen htold
  have hinner := Bridge.keeps hstep (fun w => OwnInv w ∧ w.slot = .secure id)
    (fun w label w' hw hstep => ⟨hw.1.step hstep, hw.1.secure_stays hstep hw.2⟩)
    (fun w i hw => ⟨hw.1.cancelToken, hw.2⟩) ⟨hinv.own, hslot⟩
  exact ⟨hinner.2, hkept ▸ hphase, hkept ▸ hopen⟩

/-- A cancelled token stays cancelled. -/
theorem EstablishInv.disowned_stays (hinv : EstablishInv x id) (hdisowned : Disowned x.1 id)
    (h : establishStep id x turn = some x') : Disowned x'.1 id := by
  refine (hinv.step h).disowned ?_
  refine Bridge.keeps (withHistory_eq_some.mp h).1 (fun w => w.cancelled id = true)
    (fun w label w' hw hstep => Wrapper.cancelled_stays hstep hw) (fun w i hw => ?_) hdisowned.1
  obtain ⟨u, hu, htoken⟩ := (Option.any_eq_true ..).mp hw
  obtain ⟨v, hv, -, hkept⟩ := Wrapper.cancelToken_lasts hu
  exact (Wrapper.cancelled_of_some hv).trans (hkept htoken)

/-- **No session is left without an owner.** However the runtime, the event loop and everybody else
take turns, an upgrade and its Future take seven turns at most. Until the handshake has answered or
the Future is cancelled, the upgrade waits for that; then there is always a turn that nothing holds
up, unless the session has been delivered to a Future that was not cancelled, or the token is
cancelled and the wrapper offers nothing. Either of these is for good. -/
theorem no_orphaned_session
    (h : Runs (establishStep id) (fun _ _ => True) ({ inner := {} }, []) x)
    (hid : x.1.inner.upgrades id ≠ none) :
    x.2.length ≤ 7 ∧
      ((InHandshake x.1.inner id ∧ (x.1.futures id).cancelled = false) ∨
        (∃ turn, Due x.1 id turn) ∨ Owned x.1 id ∨ Disowned x.1 id) ∧
      ∀ y, Runs (establishStep id) (fun _ _ => True) x y →
        (Owned x.1 id → Owned y.1 id) ∧ (Disowned x.1 id → Disowned y.1 id) := by
  have hinv := establishInv_of_runs h
  refine ⟨(Nat.le_add_right ..).trans hinv.count, ?_, fun y hruns => ⟨fun hown => ?_,
    fun hdisowned => ?_⟩⟩
  · obtain ⟨u, hu⟩ := Option.ne_none_iff_exists'.mp hid
    by_cases hcancelled : x.1.inner.cancelled id = true
    · exact Or.inr (Or.inr (Or.inr (hinv.disowned hcancelled)))
    · rw [Bool.not_eq_true] at hcancelled
      cases hended : u.hasEnded with
      | true =>
        rcases hinv.settled_of_ended hu hended hcancelled with hdue | hown
        · exact Or.inr (Or.inl hdue)
        · exact Or.inr (Or.inr (Or.inl hown))
      | false =>
        by_cases hhandshake : InHandshake x.1.inner id
        · cases hfuture : (x.1.futures id).cancelled with
          | false => exact Or.inl ⟨hhandshake, rfl⟩
          | true => exact Or.inr (Or.inl (hinv.due_of_cancelled hfuture hcancelled))
        · exact Or.inr (Or.inl ⟨_, due_of_block hu hended hhandshake⟩)
  · exact (hruns.invariant (fun y => EstablishInv y id ∧ Owned y.1 id) ⟨hinv, hown⟩
      fun y turn y' hy _ hstep => ⟨hy.1.step hstep, hy.1.owned_stays hy.2 hstep⟩).2
  · exact (hruns.invariant (fun y => EstablishInv y id ∧ Disowned y.1 id) ⟨hinv, hdisowned⟩
      fun y turn y' hy _ hstep => ⟨hy.1.step hstep, hy.1.disowned_stays hy.2 hstep⟩).2

/-! The handshake has made a session and the slot holds it, but the Future is cancelled while its
result is on the way, and the loop discards it. -/

def orphaningRun : List (BridgeLabel (OwnLabel ℕ) ℕ) :=
  BridgeLabel.inner (OwnLabel.establish 0) ::
    List.replicate 3 (BridgeLabel.inner (OwnLabel.upgrade 0 true)) ++
    [.post 0, .cancel 0, .deliver 0]

def orphaning (turns : List (BridgeLabel (OwnLabel ℕ) ℕ)) : Established ℕ :=
  (runLabels (establishStep 0) (fun _ _ => true) ({ inner := {} }, []) (orphaningRun ++ turns)).getD
    ({ inner := {} }, [])

theorem runs_orphaning {turns : List (BridgeLabel (OwnLabel ℕ) ℕ)}
    (h : runLabels (establishStep 0) (fun _ _ => true) ({ inner := {} }, []) (orphaningRun ++ turns)
      = some (orphaning turns)) :
    Runs (establishStep 0) (fun _ _ => True) ({ inner := {} }, []) (orphaning turns) :=
  runs_of_runLabels (fun _ _ _ => trivial) h

theorem no_orphaned_session_discarded :
    ((orphaning []).1.inner.slot = .secure 0 ∧ (orphaning []).1.inner.secureOpen = true ∧
      ∃ turn, Due (orphaning []).1 0 turn) ∧
    Disowned (orphaning [.callback 0, .observe 0]).1 0 := by
  have hsome : (orphaning []).1.inner.upgrades 0 ≠ none := by decide
  obtain ⟨-, hplace, -⟩ := no_orphaned_session (runs_orphaning rfl) hsome
  refine ⟨⟨rfl, rfl, ?_⟩, ?_⟩
  · rcases hplace with ⟨hhandshake, -⟩ | hdue | ⟨-, hdelivered, -⟩ | ⟨hcancelled, -⟩
    · exact absurd hhandshake (by unfold InHandshake; decide)
    · exact hdue
    · exact absurd hdelivered (by decide)
    · exact absurd hcancelled (by decide)
  · exact (establishInv_of_runs (runs_orphaning rfl)).disowned rfl

end Python

end Taunicorn
