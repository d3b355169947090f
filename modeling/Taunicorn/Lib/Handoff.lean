import Mathlib.Logic.Function.Basic
import Taunicorn.Lib.Machine

/-!
# Handing results to an event loop

A call runs on one runtime, and its caller waits on the event loop of another for a future. When
the call has finished, its result is posted to the loop, and the loop delivers it. The future can
be cancelled on the loop at any moment before that. Cancelling it takes effect at once on the loop:
a result that is posted or delivered behind it is discarded. The loop runs the callbacks of the
future later. From the first of them the runtime of the call hears of the cancellation, and may drop
the call from then on; behind it an observer may have a callback of its own.

`Bridge` puts such futures around any machine whose calls can be dropped.

## Main results

* `Bridge.stepped` — the steps
* `Handoff.Kept` — a future that has not been cancelled loses no result
* `Bridge.sound_of_step` — nothing is delivered to a cancelled future, and nothing else is discarded
* `Bridge.keeps` — invariants of the machine
-/

/-- How far a result has come. -/
inductive Handoff.Phase where
  /-- The call is running, or its result has not been posted. -/
  | running
  | posted
  | delivered
  | discarded
  deriving DecidableEq, Repr

/-- The future of one call, and the result on its way to it. -/
structure Handoff where
  cancelled : Bool := false
  /-- The callback of a cancelled future has run, -/
  told : Bool := false
  /-- and so has the observer's. -/
  observed : Bool := false
  phase : Handoff.Phase := .running
  deriving DecidableEq, Repr

namespace Handoff

/-- Cancel a future that has no result. -/
def cancel (f : Handoff) : Option Handoff :=
  if f.cancelled || f.phase = .delivered then none else some { f with cancelled := true }

/-- The callback of a cancelled future. -/
def callback (f : Handoff) : Option Handoff :=
  if f.cancelled && !f.told then some { f with told := true } else none

/-- The callback of the observer. -/
def observe (f : Handoff) : Option Handoff :=
  if f.told && !f.observed then some { f with observed := true } else none

/-- Post the result of a call that has finished. -/
def post (f : Handoff) : Option Handoff :=
  if f.phase = .running then
    some { f with phase := if f.cancelled then .discarded else .posted }
  else none

/-- Deliver a posted result. -/
def deliver (f : Handoff) : Option Handoff :=
  if f.phase = .posted then
    some { f with phase := if f.cancelled then .discarded else .delivered }
  else none

/-- How many turns of the loop a future has left, at most. -/
def turns (f : Handoff) : ℕ :=
  (if f.told then 0 else 1) + (if f.observed then 0 else 1) +
    match f.phase with
    | .running => 2
    | .posted => 1
    | .delivered => 0
    | .discarded => 0

/-- The result is on its way to a future that has not been cancelled, or was delivered. -/
def Kept (f : Handoff) : Prop := f.cancelled = false ∧ f.phase ≠ .discarded

variable {f f' : Handoff}

theorem cancel_eq_some (h : f.cancel = some f') :
    f.cancelled = false ∧ f.phase ≠ .delivered ∧ f' = { f with cancelled := true } := by
  unfold cancel at h
  split_ifs at h with hno
  simp only [Bool.or_eq_true, decide_eq_true_eq, not_or, Bool.not_eq_true] at hno
  exact ⟨hno.1, hno.2, (Option.some.inj h).symm⟩

theorem callback_eq_some (h : f.callback = some f') :
    f.cancelled = true ∧ f' = { f with told := true } := by
  unfold callback at h
  split_ifs at h with hyes
  exact ⟨(Bool.and_eq_true_iff.mp hyes).1, (Option.some.inj h).symm⟩

theorem observe_eq_some (h : f.observe = some f') :
    f.told = true ∧ f' = { f with observed := true } := by
  unfold observe at h
  split_ifs at h with hyes
  exact ⟨(Bool.and_eq_true_iff.mp hyes).1, (Option.some.inj h).symm⟩

theorem post_eq_some (h : f.post = some f') : f.phase = .running ∧
    f' = { f with phase := if f.cancelled then .discarded else .posted } := by
  by_cases hrunning : f.phase = .running
  · rw [post, if_pos hrunning] at h
    exact ⟨hrunning, (Option.some.inj h).symm⟩
  · rw [post, if_neg hrunning] at h
    exact absurd h nofun

theorem deliver_eq_some (h : f.deliver = some f') : f.phase = .posted ∧
    f' = { f with phase := if f.cancelled then .discarded else .delivered } := by
  by_cases hposted : f.phase = .posted
  · rw [deliver, if_pos hposted] at h
    exact ⟨hposted, (Option.some.inj h).symm⟩
  · rw [deliver, if_neg hposted] at h
    exact absurd h nofun

theorem Kept.post (hkept : f.Kept) (h : f.post = some f') : f'.Kept := by
  obtain ⟨-, rfl⟩ := post_eq_some h
  refine ⟨hkept.1, ?_⟩
  dsimp only
  rw [hkept.1]
  exact nofun

theorem Kept.deliver (hkept : f.Kept) (h : f.deliver = some f') : f'.Kept := by
  obtain ⟨-, rfl⟩ := deliver_eq_some h
  refine ⟨hkept.1, ?_⟩
  dsimp only
  rw [hkept.1]
  exact nofun

theorem turns_callback (h : f.callback = some f') : f'.turns < f.turns := by
  unfold callback at h
  split_ifs at h with hyes
  cases h
  have htold : f.told = false := by simpa using (Bool.and_eq_true_iff.mp hyes).2
  simp only [turns, htold, if_true, Bool.false_eq_true, if_false]
  omega

theorem turns_observe (h : f.observe = some f') : f'.turns < f.turns := by
  unfold observe at h
  split_ifs at h with hyes
  cases h
  have hobserved : f.observed = false := by simpa using (Bool.and_eq_true_iff.mp hyes).2
  simp only [turns, hobserved, if_true, Bool.false_eq_true, if_false]
  omega

theorem turns_post (h : f.post = some f') : f'.turns < f.turns := by
  obtain ⟨hrunning, rfl⟩ := post_eq_some h
  cases hcancelled : f.cancelled <;> simp [turns, hrunning]

theorem turns_deliver (h : f.deliver = some f') : f'.turns < f.turns := by
  obtain ⟨hposted, rfl⟩ := deliver_eq_some h
  cases hcancelled : f.cancelled <;> simp [turns, hposted]

/-- A cancelled future whose observer has not run has a turn. -/
theorem owes_observer (hcancelled : f.cancelled = true) (hobserved : f.observed = false) :
    f.callback.isSome = true ∨ f.observe.isSome = true := by
  cases htold : f.told
  · exact Or.inl (by simp [callback, hcancelled, htold])
  · exact Or.inr (by simp [observe, hobserved, htold])

/-- Nothing is delivered to a cancelled future, and no result of another one is discarded. -/
structure Sound (f : Handoff) : Prop where
  delivered : f.phase = .delivered → f.cancelled = false
  discarded : f.phase = .discarded → f.cancelled = true

theorem Sound.cancel (hf : f.cancel = some f') : f'.Sound := by
  obtain ⟨-, hphase, rfl⟩ := cancel_eq_some hf
  exact ⟨fun hdelivered => absurd hdelivered hphase, fun _ => rfl⟩

theorem Sound.callback (h : f.Sound) (hf : f.callback = some f') : f'.Sound := by
  obtain ⟨-, rfl⟩ := callback_eq_some hf
  exact ⟨h.delivered, h.discarded⟩

theorem Sound.observe (h : f.Sound) (hf : f.observe = some f') : f'.Sound := by
  obtain ⟨-, rfl⟩ := observe_eq_some hf
  exact ⟨h.delivered, h.discarded⟩

theorem Sound.post (hf : f.post = some f') : f'.Sound := by
  obtain ⟨-, rfl⟩ := post_eq_some hf
  cases f.cancelled <;> constructor <;> simp

theorem Sound.deliver (hf : f.deliver = some f') : f'.Sound := by
  obtain ⟨-, rfl⟩ := deliver_eq_some hf
  cases f.cancelled <;> constructor <;> simp

end Handoff

/-! ### Futures around a machine -/

/-- A machine whose calls have futures. -/
structure Bridge (σ ℓ ι : Type) where
  step : σ → ℓ → Option σ
  /-- The call that a step drops. -/
  drops : ℓ → Option ι
  /-- The call has a future. -/
  awaits : σ → ι → Bool
  finished : σ → ι → Bool
  /-- What the observer of a cancelled future does to the machine. -/
  called : σ → ι → σ

/-- A state of the machine, and the futures of its calls. -/
structure Bridged (σ ι : Type) where
  inner : σ
  futures : ι → Handoff := fun _ => {}

/-- Who moves. -/
inductive BridgeLabel (ℓ ι : Type) where
  | inner (label : ℓ)
  | cancel (id : ι)
  | callback (id : ι)
  | observe (id : ι)
  | post (id : ι)
  | deliver (id : ι)
  deriving DecidableEq, Repr

variable {σ ℓ ι : Type} [DecidableEq ι]

def Bridged.set (b : Bridged σ ι) (id : ι) (f : Handoff) : Bridged σ ι :=
  { b with futures := Function.update b.futures id f }

theorem Bridged.set_self (b : Bridged σ ι) (id : ι) (f : Handoff) :
    (b.set id f).futures id = f := Function.update_self ..

theorem Bridged.set_of_ne (b : Bridged σ ι) {id i : ι} (f : Handoff) (h : i ≠ id) :
    (b.set id f).futures i = b.futures i := Function.update_of_ne h ..

/-- A step of the machine may drop a call whose future's callback has run. -/
def Bridge.allows (m : Bridge σ ℓ ι) (b : Bridged σ ι) (label : ℓ) : Bool :=
  (m.drops label).all fun id => (b.futures id).told

/-- **One step.** -/
def Bridge.bridgeStep (m : Bridge σ ℓ ι) (b : Bridged σ ι) :
    BridgeLabel ℓ ι → Option (Bridged σ ι)
  | .inner label =>
    if m.allows b label then (m.step b.inner label).map fun inner => { b with inner := inner }
    else none
  | .cancel id => if m.awaits b.inner id then (b.futures id).cancel.map (b.set id) else none
  | .callback id => (b.futures id).callback.map (b.set id)
  | .observe id =>
    (b.futures id).observe.map fun f => { b.set id f with inner := m.called b.inner id }
  | .post id =>
    if m.awaits b.inner id && m.finished b.inner id then (b.futures id).post.map (b.set id)
    else none
  | .deliver id => (b.futures id).deliver.map (b.set id)

/-- The steps. -/
inductive Bridge.Stepped (m : Bridge σ ℓ ι) (b : Bridged σ ι) :
    BridgeLabel ℓ ι → Bridged σ ι → Prop
  | inner (label : ℓ) (inner : σ) : m.step b.inner label = some inner →
      (∀ id, m.drops label = some id → (b.futures id).told = true) →
      Stepped m b (.inner label) { b with inner := inner }
  | cancelled (id : ι) (f : Handoff) : m.awaits b.inner id = true →
      (b.futures id).cancel = some f → Stepped m b (.cancel id) (b.set id f)
  | told (id : ι) (f : Handoff) : (b.futures id).callback = some f →
      Stepped m b (.callback id) (b.set id f)
  | observed (id : ι) (f : Handoff) : (b.futures id).observe = some f →
      Stepped m b (.observe id) { b.set id f with inner := m.called b.inner id }
  | posted (id : ι) (f : Handoff) : m.awaits b.inner id = true → m.finished b.inner id = true →
      (b.futures id).post = some f → Stepped m b (.post id) (b.set id f)
  | delivered (id : ι) (f : Handoff) : (b.futures id).deliver = some f →
      Stepped m b (.deliver id) (b.set id f)

/-- **The list is complete.** -/
theorem Bridge.stepped {m : Bridge σ ℓ ι} {b b' : Bridged σ ι} {label : BridgeLabel ℓ ι}
    (h : m.bridgeStep b label = some b') : m.Stepped b label b' := by
  cases label with
  | inner label =>
    simp only [bridgeStep] at h
    split_ifs at h with hallows
    obtain ⟨inner, hstep, rfl⟩ := Option.map_eq_some_iff.mp h
    refine .inner label inner hstep fun id hid => ?_
    simpa [allows, hid] using hallows
  | cancel id =>
    simp only [bridgeStep] at h
    split_ifs at h with hawaits
    obtain ⟨f, hf, rfl⟩ := Option.map_eq_some_iff.mp h
    exact .cancelled id f hawaits hf
  | callback id =>
    obtain ⟨f, hf, rfl⟩ := Option.map_eq_some_iff.mp h
    exact .told id f hf
  | observe id =>
    obtain ⟨f, hf, rfl⟩ := Option.map_eq_some_iff.mp h
    exact .observed id f hf
  | post id =>
    simp only [bridgeStep] at h
    split_ifs at h with hready
    obtain ⟨f, hf, rfl⟩ := Option.map_eq_some_iff.mp h
    obtain ⟨hawaits, hfinished⟩ := Bool.and_eq_true_iff.mp hready
    exact .posted id f hawaits hfinished hf
  | deliver id =>
    obtain ⟨f, hf, rfl⟩ := Option.map_eq_some_iff.mp h
    exact .delivered id f hf

/-- **No result is lost but by a cancellation**, and none arrives behind one. -/
theorem Bridge.sound_of_step {m : Bridge σ ℓ ι} {b b' : Bridged σ ι} {label : BridgeLabel ℓ ι}
    (h : m.bridgeStep b label = some b') (hsound : ∀ id, (b.futures id).Sound) (id : ι) :
    (b'.futures id).Sound := by
  have hset : ∀ {i : ι} {f : Handoff}, f.Sound → ((b.set i f).futures id).Sound := by
    intro i f hf
    by_cases hid : id = i
    · subst hid
      rw [Bridged.set_self]
      exact hf
    · rw [Bridged.set_of_ne _ _ hid]
      exact hsound id
  cases Bridge.stepped h with
  | inner => exact hsound id
  | cancelled i f _ hf => exact hset (.cancel hf)
  | told i f hf => exact hset ((hsound i).callback hf)
  | observed i f hf => exact hset ((hsound i).observe hf)
  | posted i f _ _ hf => exact hset (.post hf)
  | delivered i f hf => exact hset (.deliver hf)

/-- **A delivered result stays delivered**, and its future is not touched again. -/
theorem Bridge.delivered_stays {m : Bridge σ ℓ ι} {b b' : Bridged σ ι} {label : BridgeLabel ℓ ι}
    {id : ι} (h : m.bridgeStep b label = some b') (hphase : (b.futures id).phase = .delivered)
    (hopen : (b.futures id).cancelled = false) (htold : (b.futures id).told = false) :
    b'.futures id = b.futures id := by
  have hset : ∀ {i : ι} {f : Handoff}, (i = id → False) → (b.set i f).futures id = b.futures id :=
    fun hi => b.set_of_ne _ fun h => hi h.symm
  cases Bridge.stepped h with
  | inner => rfl
  | cancelled i f _ hf =>
    refine hset fun hi => ?_
    exact (Handoff.cancel_eq_some (hi ▸ hf)).2.1 hphase
  | told i f hf =>
    refine hset fun hi => ?_
    exact absurd (hopen.symm.trans (Handoff.callback_eq_some (hi ▸ hf)).1) Bool.false_ne_true
  | observed i f hf =>
    refine hset fun hi => ?_
    exact absurd (htold.symm.trans (Handoff.observe_eq_some (hi ▸ hf)).1) Bool.false_ne_true
  | posted i f _ _ hf =>
    refine hset fun hi => ?_
    exact absurd (hphase.symm.trans (Handoff.post_eq_some (hi ▸ hf)).1) (by simp)
  | delivered i f hf =>
    refine hset fun hi => ?_
    exact absurd (hphase.symm.trans (Handoff.deliver_eq_some (hi ▸ hf)).1) (by simp)

/-- What the steps of a machine and its observers keep, the steps of its bridge keep. -/
theorem Bridge.keeps {m : Bridge σ ℓ ι} {b b' : Bridged σ ι} {label : BridgeLabel ℓ ι}
    (h : m.bridgeStep b label = some b') (P : σ → Prop)
    (hstep : ∀ s l s', P s → m.step s l = some s' → P s') (hcalled : ∀ s i, P s → P (m.called s i))
    (hb : P b.inner) : P b'.inner := by
  cases Bridge.stepped h with
  | inner label inner hinner _ => exact hstep _ _ _ hb hinner
  | observed i f _ => exact hcalled _ i hb
  | _ => exact hb

/-- **The result of a call that has finished can still be delivered**, unless its future has been
cancelled. -/
theorem Bridge.exists_delivered {m : Bridge σ ℓ ι} {b : Bridged σ ι} {id : ι}
    (hawaits : m.awaits b.inner id = true) (hfinished : m.finished b.inner id = true)
    (hopen : (b.futures id).cancelled = false) (hsound : (b.futures id).Sound) :
    ∃ b', Runs m.bridgeStep (fun _ _ => True) b b' ∧ b'.inner = b.inner ∧
      (b'.futures id).phase = .delivered ∧ ∀ i, i ≠ id → b'.futures i = b.futures i := by
  have hdeliver : ∀ x : Bridged σ ι, (x.futures id).phase = .posted →
      (x.futures id).cancelled = false →
      m.bridgeStep x (.deliver id)
        = some (x.set id { x.futures id with phase := .delivered }) := by
    intro x hposted hx
    simp only [bridgeStep, Handoff.deliver, hposted, hx, if_true, Bool.false_eq_true, if_false,
      Option.map_some]
  cases hphase : (b.futures id).phase with
  | running =>
    have hpost : m.bridgeStep b (.post id)
        = some (b.set id { b.futures id with phase := .posted }) := by
      simp only [bridgeStep, Handoff.post, hawaits, hfinished, hphase, hopen, Bool.and_self,
        if_true, Bool.false_eq_true, if_false, Option.map_some]
    have hself := b.set_self id { b.futures id with phase := .posted }
    have hlast := hdeliver _ (congrArg Handoff.phase hself)
      ((congrArg Handoff.cancelled hself).trans hopen)
    refine ⟨_, .tail (.tail .refl trivial hpost) trivial hlast, rfl, ?_, fun i hi => ?_⟩
    · rw [Bridged.set_self]
    · rw [Bridged.set_of_ne _ _ hi, Bridged.set_of_ne _ _ hi]
  | posted =>
    refine ⟨_, .tail .refl trivial (hdeliver b hphase hopen), rfl, ?_, fun i hi => ?_⟩
    · rw [Bridged.set_self]
    · rw [Bridged.set_of_ne _ _ hi]
  | delivered => exact ⟨b, .refl, rfl, hphase, fun _ _ => rfl⟩
  | discarded => exact absurd (hopen.symm.trans (hsound.discarded hphase)) Bool.false_ne_true
