import Taunicorn.Lib.Pool

/-!
# Errors and what they are blamed on

A machine whose steps are taken on behalf of calls, and some of whose steps raise an error: from
then on the call is committed to it. `Blame` tells of a step on whose behalf it is taken, and what
an error is to be blamed on if the step raises one. It is told from the state and the label, before
the error is known, so that what an error is blamed on cannot depend on what it says.

`Blame.raises` is a history of the machine: who raised which error, and for what cause.

## Main results

* `Blame.accounts` — every error was raised once, and what holds of every step that raises one holds
  of it and its cause
* `Pool.accounts` — the same for a pool of calls, from what one step of a call does
-/

variable {σ ℓ ι ε γ : Type}

structure Blame (σ ℓ ι ε γ : Type) where
  step : σ → ℓ → Option σ
  /-- The error that a call is committed to. -/
  error : σ → ι → Option ε
  /-- On whose behalf the step is taken, and what an error is to be blamed on. -/
  blame : σ → ℓ → Option (ι × γ)

/-- The error that a step raises. -/
def Blame.raises (m : Blame σ ℓ ι ε γ) (s : σ) (l : ℓ) : List (ι × γ × ε) :=
  match m.blame s l with
  | none => []
  | some (id, cause) =>
    match m.error s id, (m.step s l).bind fun s' => m.error s' id with
    | none, some e => [(id, cause, e)]
    | _, _ => []

/-- What a call has raised. -/
def raisedBy [DecidableEq ι] (raised : List (ι × γ × ε)) (id : ι) : List (γ × ε) :=
  raised.filterMap fun r => if r.1 = id then some r.2 else none

/-- The step of a call commits no other call to an error, and no call leaves its error. -/
structure Blame.Lawful (m : Blame σ ℓ ι ε γ) : Prop where
  other : ∀ {s l s' id}, m.step s l = some s' → (∀ cause, m.blame s l ≠ some (id, cause)) →
    m.error s' id = m.error s id
  stays : ∀ {s l s' id e}, m.step s l = some s' → m.error s id = some e → m.error s' id = some e

/-- In every run from `start`, every error that a call is committed to was raised once, for a cause
that it satisfies `P` with. -/
def Blame.Accounts [DecidableEq ι] (m : Blame σ ℓ ι ε γ) (start : σ) (P : γ → ε → Prop) : Prop :=
  ∀ (allowed : σ × List (ι × γ × ε) → ℓ → Prop) (s : σ) (raised : List (ι × γ × ε)) (id : ι)
    (e : ε),
    Runs (withHistory m.step m.raises) allowed (start, []) (s, raised) → m.error s id = some e →
      ∃ cause, raisedBy raised id = [(cause, e)] ∧ P cause e

variable [DecidableEq ι] {m : Blame σ ℓ ι ε γ} {s s' start : σ} {l : ℓ} {id : ι} {cause : γ} {e : ε}
  {P : γ → ε → Prop}

@[simp] theorem raisedBy_append (raised more : List (ι × γ × ε)) (id : ι) :
    raisedBy (raised ++ more) id = raisedBy raised id ++ raisedBy more id :=
  List.filterMap_append

/-- A step raises nothing for those that it is not taken for. -/
theorem Blame.raisedBy_other (h : ∀ cause, m.blame s l ≠ some (id, cause)) :
    raisedBy (m.raises s l) id = [] := by
  unfold Blame.raises
  split
  · rfl
  · next j cause hblame =>
    have hj : j ≠ id := by
      rintro rfl
      exact h cause hblame
    split
    · simp [raisedBy, hj]
    · rfl

theorem Blame.raisedBy_self (hblame : m.blame s l = some (id, cause)) (hstep : m.step s l = some s')
    (hnone : m.error s id = none) (herror : m.error s' id = some e) :
    raisedBy (m.raises s l) id = [(cause, e)] := by
  simp [Blame.raises, raisedBy, hblame, hstep, hnone, herror]

/-- and nothing for one that is committed already, or is not committed by it. -/
theorem Blame.raisedBy_quiet (hblame : m.blame s l = some (id, cause))
    (hstep : m.step s l = some s') (h : m.error s id ≠ none ∨ m.error s' id = none) :
    raisedBy (m.raises s l) id = [] := by
  unfold Blame.raises
  simp only [hblame, hstep, Option.bind_some]
  split
  · next hnone hsome => simp [hnone, hsome] at h
  · rfl

/-- **Every error was raised once.** What holds of every step that raises one, and its cause, holds
of all errors in all runs. -/
theorem Blame.accounts (hlawful : m.Lawful) (hstart : ∀ id, m.error start id = none)
    (hraise : ∀ {s l s' id cause e}, m.step s l = some s' → m.blame s l = some (id, cause) →
      m.error s id = none → m.error s' id = some e → P cause e) :
    m.Accounts start P := by
  intro allowed s raised id e h herror
  have hinv := h.invariant (fun x => ∀ id,
      (m.error x.1 id = none → raisedBy x.2 id = []) ∧
      ∀ e, m.error x.1 id = some e → ∃ cause, raisedBy x.2 id = [(cause, e)] ∧ P cause e)
    (fun id => ⟨fun _ => rfl, fun e he => absurd ((hstart id).symm.trans he) (by simp)⟩) ?_
  · exact (hinv id).2 e herror
  rintro ⟨s, raised⟩ l ⟨s', raised'⟩ hinv - hrun
  obtain ⟨hstep, hraised⟩ := withHistory_eq_some.mp hrun
  intro id
  dsimp only at hinv hstep hraised ⊢
  obtain ⟨hnone, hsome⟩ := hinv id
  rw [hraised, raisedBy_append]
  by_cases hother : ∀ cause, m.blame s l ≠ some (id, cause)
  · rw [hlawful.other hstep hother, Blame.raisedBy_other hother, List.append_nil]
    exact hinv id
  · obtain ⟨cause, hblame⟩ : ∃ cause, m.blame s l = some (id, cause) := by simpa using hother
    cases hbefore : m.error s id with
    | some e =>
      -- the error stays, and nothing is added
      rw [hlawful.stays hstep hbefore, Blame.raisedBy_quiet hblame hstep (by simp [hbefore]),
        List.append_nil, ← hbefore]
      exact hinv id
    | none =>
      rw [hnone hbefore, List.nil_append]
      cases hafter : m.error s' id with
      | none =>
        exact ⟨fun _ => Blame.raisedBy_quiet hblame hstep (Or.inr hafter),
          fun e he => absurd he (by simp)⟩
      | some e =>
        refine ⟨fun he => absurd he (by simp), fun e' he' => ?_⟩
        obtain rfl := Option.some.inj he'
        exact ⟨cause, Blame.raisedBy_self hblame hstep hbefore hafter,
          hraise hstep hblame hbefore hafter⟩

/-! ### Pools -/

variable {κ ω χ ν : Type} {spec : CallSpec σ κ ω χ ν}

/-- A pool of calls, with the error of a call and what a step of a call is to be blamed on. -/
def Pool.blaming (spec : CallSpec σ κ ω χ ν) (error : κ → Option ε) (cause : σ → κ → χ → γ) :
    Blame (Pool σ κ ι) (PoolLabel ι ω χ ν) ι ε γ where
  step := Pool.step spec
  error pool id := (pool.calls id).bind error
  blame pool
    | .poll id choice => (pool.calls id).map fun call => (id, cause pool.shared call choice)
    | _ => none

variable {error : κ → Option ε} {cause : σ → κ → χ → γ}

theorem Pool.blaming_lawful (henter : ∀ op, error (spec.enter op) = none)
    (hstays : ∀ {shared call choice call' shared' e},
      spec.poll shared call choice = some (call', shared') → error call = some e →
        error call' = some e) :
    (Pool.blaming (ι := ι) spec error cause).Lawful where
  other {pool label pool' id} h hother := by
    dsimp only [Pool.blaming] at hother ⊢
    cases Pool.stepped h with
    | called i op hnone =>
      by_cases hi : id = i
      · subst hi
        simp [hnone, henter op]
      · dsimp only
        rw [Function.update_of_ne hi]
    | polled i choice call call' shared hcall _ =>
      have hi : id ≠ i := by
        rintro rfl
        simp [hcall] at hother
      dsimp only
      rw [Function.update_of_ne hi]
    | moved event shared _ => rfl
  stays {pool label pool' id e} h herror := by
    dsimp only [Pool.blaming] at herror ⊢
    obtain ⟨call, hcall, he⟩ := Option.bind_eq_some_iff.mp herror
    cases Pool.stepped h with
    | called i op hnone =>
      have hi : id ≠ i := by
        rintro rfl
        exact absurd (hcall.symm.trans hnone) (Option.some_ne_none _)
      dsimp only
      rw [Function.update_of_ne hi, hcall, Option.bind_some, he]
    | polled i choice c call' shared hc hpoll =>
      dsimp only
      by_cases hi : id = i
      · subst hi
        obtain rfl := Option.some.inj (hcall.symm.trans hc)
        rw [Function.update_self, Option.bind_some, hstays hpoll he]
      · rw [Function.update_of_ne hi, hcall, Option.bind_some, he]
    | moved event shared _ => dsimp only; rw [hcall, Option.bind_some, he]

/-- **The rule for pools.** A call begins without an error and keeps the one it has; what holds of
every step of a call that raises one, and its cause, holds of all errors in all runs. -/
theorem Pool.accounts {start : Pool σ κ ι} (hstart : ∀ id, start.calls id = none)
    (henter : ∀ op, error (spec.enter op) = none)
    (hstays : ∀ {shared call choice call' shared' e},
      spec.poll shared call choice = some (call', shared') → error call = some e →
        error call' = some e)
    (hraise : ∀ {shared call choice call' shared' e},
      spec.poll shared call choice = some (call', shared') → error call = none →
        error call' = some e → P (cause shared call choice) e) :
    (Pool.blaming spec error cause).Accounts start P := by
  refine Blame.accounts (Pool.blaming_lawful henter hstays) (fun id => by
    simp [Pool.blaming, hstart id]) ?_
  intro pool label pool' id c e h hblame hnone hsome
  dsimp only [Pool.blaming] at hblame hnone hsome
  cases Pool.stepped h with
  | called i op hnone => exact absurd hblame.symm (Option.some_ne_none _)
  | polled i choice call call' shared hcall hpoll =>
    obtain ⟨call₁, hcall₁, hpair⟩ := Option.map_eq_some_iff.mp hblame
    obtain rfl := Option.some.inj (hcall.symm.trans hcall₁)
    obtain ⟨rfl, rfl⟩ := Prod.mk.inj hpair
    dsimp only at hsome
    rw [hcall, Option.bind_some] at hnone
    rw [Function.update_self, Option.bind_some] at hsome
    exact hraise hpoll hnone hsome
  | moved event shared _ => exact absurd hblame.symm (Option.some_ne_none _)
