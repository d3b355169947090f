import Mathlib.Data.Option.Basic
import Mathlib.Tactic.Common

/-!
# Labelled machines

A machine is a partial step function on states and labels: a label says who moves and how the
environment answers, and a step that is not enabled gives nothing. All nondeterminism is in the
labels, so a finite run is a list of labels and can be evaluated.

`Runs step allowed s s'` holds if some run leads from `s` to `s'` and every one of its steps is
allowed where it is taken. Assumptions about the environment are such predicates on steps.

## Main results

* `Runs.invariant` — what every allowed step preserves holds at the end of every run
* `Runs.mono` — fewer assumptions, more runs
* `Runs.map` — a simulation maps runs to runs
* `Runs.of_withHistory` — a machine with a history runs as the machine does
* `runs_of_runLabels` — evaluated runs are runs
* `runLabels_filterMap`, `runLabels_filter` — runs under a renaming, and under a deletion of steps
* `exists_runLabels` — a run lifted to a machine with more steps
-/

variable {σ τ ℓ κ : Type}

/-- Reachability by allowed steps. -/
inductive Runs (step : σ → ℓ → Option σ) (allowed : σ → ℓ → Prop) (s : σ) : σ → Prop
  | refl : Runs step allowed s s
  | tail {s' s'' : σ} {l : ℓ} : Runs step allowed s s' → allowed s' l → step s' l = some s'' →
      Runs step allowed s s''

variable {step : σ → ℓ → Option σ} {allowed allowed' : σ → ℓ → Prop} {s s' s'' : σ}

theorem Runs.trans (h : Runs step allowed s s') (h' : Runs step allowed s' s'') :
    Runs step allowed s s'' := by
  induction h' with
  | refl => exact h
  | tail _ hallowed hstep ih => exact .tail ih hallowed hstep

theorem Runs.mono (hsub : ∀ s l, allowed s l → allowed' s l) (h : Runs step allowed s s') :
    Runs step allowed' s s' := by
  induction h with
  | refl => exact .refl
  | tail _ hallowed hstep ih => exact .tail ih (hsub _ _ hallowed) hstep

/-- **The invariant rule.** -/
theorem Runs.invariant (P : σ → Prop) (h : Runs step allowed s s') (h0 : P s)
    (hstep : ∀ s l s', P s → allowed s l → step s l = some s' → P s') : P s' := by
  induction h with
  | refl => exact h0
  | tail _ hallowed hs ih => exact hstep _ _ _ ih hallowed hs

/-- **The simulation rule.** Where every step of one machine is one step of another, or none, a run
of the first is a run of the second. The simulation may use an invariant of the first. -/
theorem Runs.map {step' : τ → κ → Option τ} {allowed' : τ → κ → Prop} (abs : σ → τ)
    (hsim : ∀ s l s', allowed s l → step s l = some s' → abs s' = abs s ∨
      ∃ k, allowed' (abs s) k ∧ step' (abs s) k = some (abs s'))
    (h : Runs step allowed s s') : Runs step' allowed' (abs s) (abs s') := by
  induction h with
  | refl => exact .refl
  | tail _ hallowed hstep ih =>
    rcases hsim _ _ _ hallowed hstep with heq | ⟨k, hk, hstep'⟩
    · rwa [heq]
    · exact .tail ih hk hstep'

/-- Evaluate a run, and check each of its steps where it is taken. -/
def runLabels (step : σ → ℓ → Option σ) (check : σ → ℓ → Bool) : σ → List ℓ → Option σ
  | s, [] => some s
  | s, l :: ls =>
    if check s l then (step s l).bind fun s' => runLabels step check s' ls else none

theorem runs_of_runLabels {check : σ → ℓ → Bool} {ls : List ℓ}
    (hcheck : ∀ s l, check s l = true → allowed s l)
    (h : runLabels step check s ls = some s') : Runs step allowed s s' := by
  induction ls generalizing s with
  | nil => exact Option.some.inj h ▸ .refl
  | cons l ls ih =>
    rw [runLabels] at h
    split at h
    · next hl =>
      obtain ⟨s₁, hstep, hrest⟩ := Option.bind_eq_some_iff.mp h
      exact (Runs.tail .refl (hcheck s l hl) hstep).trans (ih hrest)
    · exact absurd h nofun

/-! ### Runs under a projection -/

/-- Runs in a row. -/
theorem runLabels_append {check : σ → ℓ → Bool} (ls ls' : List ℓ) (s : σ) :
    runLabels step check s (ls ++ ls')
      = (runLabels step check s ls).bind fun s' => runLabels step check s' ls' := by
  induction ls generalizing s with
  | nil => rfl
  | cons l ls ih =>
    rw [List.cons_append, runLabels, runLabels]
    split
    · cases step s l with
      | none => rfl
      | some s' => exact ih s'
    · rfl

/-- **The renaming rule.** Let every step of one machine be the renamed step of another, or none
where its label has no new name. Then a run, renamed, is a run. -/
theorem runLabels_filterMap {step' : τ → κ → Option τ} {check : σ → ℓ → Bool} {ls : List ℓ}
    (abs : σ → τ) (rename : ℓ → Option κ)
    (hstep : ∀ s l s', check s l = true → step s l = some s' →
      (rename l).elim (abs s' = abs s) fun k => step' (abs s) k = some (abs s'))
    (h : runLabels step check s ls = some s') :
    runLabels step' (fun _ _ => true) (abs s) (ls.filterMap rename) = some (abs s') := by
  induction ls generalizing s with
  | nil => exact congrArg (Option.map abs) h
  | cons l ls ih =>
    rw [runLabels] at h
    split at h
    · next hl =>
      obtain ⟨s₁, hs, hrest⟩ := Option.bind_eq_some_iff.mp h
      have hrename := hstep s l s₁ hl hs
      cases hname : rename l with
      | none =>
        rw [hname] at hrename
        rw [List.filterMap_cons_none hname, ← show abs s₁ = abs s from hrename]
        exact ih hrest
      | some k =>
        rw [hname] at hrename
        rw [List.filterMap_cons_some hname, runLabels, if_pos rfl,
          show step' (abs s) k = some (abs s₁) from hrename]
        exact ih hrest
    · exact absurd h nofun

/-- **The lifting rule.** Let every step of the other machine be made by some steps of the first, of
which the kept one is its lifted step. Then a run lifts to a run, with other steps put in. -/
theorem exists_runLabels {step' : τ → κ → Option τ} {check : σ → ℓ → Bool} {ks : List κ} {t : τ}
    (abs : σ → τ) (lift : κ → ℓ) (keep : ℓ → Bool)
    (hstep : ∀ s, ∀ k ∈ ks, ∀ t, step' (abs s) k = some t →
      ∃ ls s', runLabels step check s ls = some s' ∧ ls.filter keep = [lift k] ∧ abs s' = t)
    (h : runLabels step' (fun _ _ => true) (abs s) ks = some t) :
    ∃ ls s', runLabels step check s ls = some s' ∧ ls.filter keep = ks.map lift ∧ abs s' = t := by
  induction ks generalizing s with
  | nil => exact ⟨[], s, rfl, rfl, Option.some.inj h⟩
  | cons k ks ih =>
    rw [runLabels, if_pos rfl] at h
    obtain ⟨t₁, hs, hrest⟩ := Option.bind_eq_some_iff.mp h
    obtain ⟨ls, s₁, hrun, hkept, rfl⟩ := hstep s k List.mem_cons_self t₁ hs
    obtain ⟨ls', s', hrun', hkept', rfl⟩ :=
      ih (fun s k hk => hstep s k (List.mem_cons_of_mem _ hk)) hrest
    refine ⟨ls ++ ls', s', ?_, ?_, rfl⟩
    · rw [runLabels_append, hrun]
      exact hrun'
    · rw [List.filter_append, hkept, hkept', List.map_cons, List.singleton_append]

/-- What holds at the end of a run, and before every step behind which it holds, holds at its
start. -/
theorem holds_of_runLabels {check : σ → ℓ → Bool} {ls : List ℓ} (P : σ → Prop)
    (hback : ∀ s l s', step s l = some s' → P s' → P s)
    (h : runLabels step check s ls = some s') (hend : P s') : P s := by
  induction ls generalizing s with
  | nil => exact Option.some.inj h ▸ hend
  | cons l ls ih =>
    rw [runLabels] at h
    split at h
    · obtain ⟨s₁, hstep, hrest⟩ := Option.bind_eq_some_iff.mp h
      exact hback s l s₁ hstep (ih hrest)
    · exact absurd h (by simp)

/-- **The deletion rule.** Let a projection see each step that is kept as the same step, and the
others not at all. Then what is kept of a run is a run, from projection to projection. Which steps
are kept may depend on the end of the run, through a predicate that holds all along if it holds
there. -/
theorem runLabels_filter {check : σ → ℓ → Bool} {ls : List ℓ} (abs : σ → σ) (keep : ℓ → Bool)
    (inv ends : σ → Prop) (hback : ∀ s l s', step s l = some s' → ends s' → ends s)
    (hinv : ∀ s l s', inv s → check s l = true → step s l = some s' → inv s')
    (hkeep : ∀ s l s', inv s → ends s' → check s l = true → step s l = some s' → keep l = true →
      check (abs s) l = true ∧ step (abs s) l = some (abs s'))
    (hdelete : ∀ s l s', inv s → ends s' → check s l = true → step s l = some s' →
      keep l = false → abs s' = abs s)
    (h : runLabels step check s ls = some s') (hstart : inv s) (hend : ends s') :
    runLabels step check (abs s) (ls.filter keep) = some (abs s') := by
  induction ls generalizing s with
  | nil => exact congrArg (Option.map abs) h
  | cons l ls ih =>
    rw [runLabels] at h
    split at h
    · next hl =>
      obtain ⟨s₁, hstep, hrest⟩ := Option.bind_eq_some_iff.mp h
      have hends := holds_of_runLabels ends hback hrest hend
      have hkept := ih hrest (hinv s l s₁ hstart hl hstep)
      cases hk : keep l with
      | true =>
        obtain ⟨hcheck, hstep'⟩ := hkeep s l s₁ hstart hends hl hstep hk
        rw [List.filter_cons_of_pos hk, runLabels, if_pos hcheck, hstep']
        exact hkept
      | false =>
        rw [List.filter_cons_of_neg (by simp [hk]), ← hdelete s l s₁ hstart hends hl hstep hk]
        exact hkept
    · exact absurd h (by simp)

/-! ### Histories -/

variable {ω : Type} {shows : σ → ℓ → List ω} {x x' : σ × List ω} {l : ℓ}

/-- A machine that keeps a history of what its steps show. The history is a ghost: it never
enables or prevents a step. -/
def withHistory (step : σ → ℓ → Option σ) (shows : σ → ℓ → List ω) (x : σ × List ω) (l : ℓ) :
    Option (σ × List ω) :=
  (step x.1 l).map fun s => (s, x.2 ++ shows x.1 l)

theorem withHistory_eq_some :
    withHistory step shows x l = some x' ↔ step x.1 l = some x'.1 ∧ x'.2 = x.2 ++ shows x.1 l := by
  rw [withHistory, Option.map_eq_some_iff]
  constructor
  · rintro ⟨s, hs, rfl⟩
    exact ⟨hs, rfl⟩
  · rintro ⟨hs, hhistory⟩
    exact ⟨x'.1, hs, Prod.ext rfl hhistory.symm⟩

/-- Without its history, a run is a run of the machine. -/
theorem Runs.of_withHistory {allowed' : σ × List ω → ℓ → Prop}
    (hallowed : ∀ x l, allowed' x l → allowed x.1 l)
    (h : Runs (withHistory step shows) allowed' x x') : Runs step allowed x.1 x'.1 :=
  h.map Prod.fst fun x l _ hl hstep =>
    Or.inr ⟨l, hallowed x l hl, (withHistory_eq_some.mp hstep).1⟩

/-- Every run has a history. -/
theorem Runs.exists_history (h : Runs step allowed s s') (shown : List ω) :
    ∃ shown', Runs (withHistory step shows) (fun x => allowed x.1) (s, shown) (s', shown') := by
  induction h with
  | refl => exact ⟨shown, .refl⟩
  | tail _ hallowed hstep ih =>
    obtain ⟨shown', hruns⟩ := ih
    exact ⟨_, hruns.tail hallowed (withHistory_eq_some.mpr ⟨hstep, rfl⟩)⟩
