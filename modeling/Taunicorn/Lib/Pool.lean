import Mathlib.Algebra.Order.BigOperators.Group.Finset
import Mathlib.Logic.Function.Basic
import Taunicorn.Lib.Machine

/-!
# Pools of calls

Any number of calls on one shared state. A call is made at some point, and then takes steps: each is
one access to the shared state, with an answer of the environment. Between two steps of a call any
other call may step, and so may the environment on its own.

`CallSpec` is what one call does and what the environment does; `Pool.step` is the machine of all of
them. What one step of a call can do is said once, by `Pool.stepped`, and an invariant that a call
keeps together with a shared state follows for all calls by `Pool.forall_calls`.

## Main results

* `Pool.stepped` — what a step of a pool is
* `Pool.forall_calls` — the invariant rule
* `Owed.update`, `owed_update_self` — duties that some call has, whichever it is
* `acc_of_weight`, `acc_of_rank` — where every step brings a call nearer to its end, all of them end
-/

variable {σ κ ω χ ε ι : Type}

/-- How a call begins, one step of it, and one step of the environment. -/
structure CallSpec (σ κ ω χ ε : Type) where
  enter : ω → κ
  poll : σ → κ → χ → Option (κ × σ)
  env : σ → ε → Option σ

structure Pool (σ κ ι : Type) where
  shared : σ
  calls : ι → Option κ := fun _ => none

inductive PoolLabel (ι ω χ ε : Type) where
  | call (id : ι) (op : ω)
  | poll (id : ι) (choice : χ)
  | env (event : ε)
  deriving DecidableEq, Repr

/-- **One step of a pool.** -/
def Pool.step [DecidableEq ι] (spec : CallSpec σ κ ω χ ε) (pool : Pool σ κ ι) :
    PoolLabel ι ω χ ε → Option (Pool σ κ ι)
  | .call id op =>
    match pool.calls id with
    | none => some { pool with calls := Function.update pool.calls id (some (spec.enter op)) }
    | some _ => none
  | .poll id choice =>
    match pool.calls id with
    | none => none
    | some call =>
      (spec.poll pool.shared call choice).map fun (call', shared) =>
        { shared, calls := Function.update pool.calls id (some call') }
  | .env event => (spec.env pool.shared event).map fun shared => { pool with shared }

/-- The steps of a pool. -/
inductive Pool.Stepped [DecidableEq ι] (spec : CallSpec σ κ ω χ ε) (pool : Pool σ κ ι) :
    PoolLabel ι ω χ ε → Pool σ κ ι → Prop
  | called (id : ι) (op : ω) : pool.calls id = none →
      Stepped spec pool (.call id op)
        { pool with calls := Function.update pool.calls id (some (spec.enter op)) }
  | polled (id : ι) (choice : χ) (call call' : κ) (shared : σ) : pool.calls id = some call →
      spec.poll pool.shared call choice = some (call', shared) →
      Stepped spec pool (.poll id choice)
        { shared, calls := Function.update pool.calls id (some call') }
  | moved (event : ε) (shared : σ) : spec.env pool.shared event = some shared →
      Stepped spec pool (.env event) { pool with shared }

variable [DecidableEq ι] {spec : CallSpec σ κ ω χ ε} {pool pool' : Pool σ κ ι}
  {label : PoolLabel ι ω χ ε} {id : ι} {call call' : κ}

theorem Pool.stepped (h : pool.step spec label = some pool') : pool.Stepped spec label pool' := by
  unfold Pool.step at h
  split at h
  case h_1 id op =>
    split at h
    · next hnone => cases h; exact .called id op hnone
    · exact absurd h.symm (Option.some_ne_none _)
  case h_2 id choice =>
    split at h
    · exact absurd h.symm (Option.some_ne_none _)
    · next call hcall =>
      obtain ⟨⟨call', shared⟩, hpoll, hpool⟩ := Option.map_eq_some_iff.mp h
      cases hpool
      exact .polled id choice call call' shared hcall hpoll
  case h_3 event =>
    obtain ⟨shared, henv, hpool⟩ := Option.map_eq_some_iff.mp h
    cases hpool
    exact .moved event shared henv

/-- Where a call comes from: it was there, or has just been made, or has just stepped. -/
theorem Pool.call_of_step (h : pool.step spec label = some pool')
    (hcall : pool'.calls id = some call') :
    pool.calls id = some call' ∨ (∃ op, label = .call id op ∧ call' = spec.enter op) ∨
      ∃ choice call, label = .poll id choice ∧ pool.calls id = some call ∧
        spec.poll pool.shared call choice = some (call', pool'.shared) := by
  cases Pool.stepped h with
  | called i op hnone =>
    dsimp only at hcall
    by_cases hi : id = i
    · subst hi
      rw [Function.update_self, Option.some.injEq] at hcall
      exact Or.inr (Or.inl ⟨op, rfl, hcall.symm⟩)
    · rw [Function.update_of_ne hi] at hcall
      exact Or.inl hcall
  | polled i choice call c shared hc hpoll =>
    dsimp only at hcall ⊢
    by_cases hi : id = i
    · subst hi
      rw [Function.update_self, Option.some.injEq] at hcall
      subst hcall
      exact Or.inr (Or.inr ⟨choice, call, rfl, hc, hpoll⟩)
    · rw [Function.update_of_ne hi] at hcall
      exact Or.inl hcall
  | moved event shared _ => exact Or.inl hcall

/-- A call that cannot step stays as it is. -/
theorem Pool.call_stays (h : pool.step spec label = some pool') (hcall : pool.calls id = some call)
    (hfinal : ∀ choice, spec.poll pool.shared call choice = none) :
    pool'.calls id = some call := by
  cases Pool.stepped h with
  | called i op hnone =>
    have hi : id ≠ i := by
      rintro rfl
      exact absurd (hcall.symm.trans hnone) (Option.some_ne_none _)
    dsimp only
    rwa [Function.update_of_ne hi]
  | polled i choice c call' shared hc hpoll =>
    have hi : id ≠ i := by
      rintro rfl
      obtain rfl := Option.some.inj (hcall.symm.trans hc)
      exact absurd (hpoll.symm.trans (hfinal choice)) (Option.some_ne_none _)
    dsimp only
    rwa [Function.update_of_ne hi]
  | moved event shared _ => exact hcall

/-- **The invariant rule.** Let `I` be an invariant of the shared state, and `P` one of a call next
to it. They hold all along if a call begins with `P`, a step of a call that has it keeps `I` and
leaves `P` with every call, and so does a step of the environment. -/
theorem Pool.forall_calls {allowed : Pool σ κ ι → PoolLabel ι ω χ ε → Prop} (I : σ → Prop)
    (P : ι → σ → κ → Prop) (h : Runs (Pool.step spec) allowed pool pool') (hI : I pool.shared)
    (hP : ∀ id call, pool.calls id = some call → P id pool.shared call)
    (henter : ∀ shared id op, I shared → P id shared (spec.enter op))
    (hpoll : ∀ {pool : Pool σ κ ι} {id call choice call' shared}, allowed pool (.poll id choice) →
      pool.calls id = some call → spec.poll pool.shared call choice = some (call', shared) →
      I pool.shared → P id pool.shared call →
      I shared ∧ P id shared call' ∧ ∀ j c, P j pool.shared c → P j shared c)
    (henv : ∀ {shared event shared'}, spec.env shared event = some shared' → I shared →
      I shared' ∧ ∀ j c, P j shared c → P j shared' c) :
    I pool'.shared ∧ ∀ id call, pool'.calls id = some call → P id pool'.shared call := by
  refine h.invariant (fun pool => I pool.shared ∧
    ∀ id call, pool.calls id = some call → P id pool.shared call) ⟨hI, hP⟩ ?_
  rintro pool label pool' ⟨hI, hP⟩ hallowed hstep
  cases Pool.stepped hstep with
  | called id op hnone =>
    refine ⟨hI, fun i c hc => ?_⟩
    dsimp only at hc ⊢
    by_cases hi : i = id
    · rw [hi, Function.update_self, Option.some.injEq] at hc
      exact hc ▸ henter _ i op hI
    · rw [Function.update_of_ne hi] at hc
      exact hP i c hc
  | polled id choice call call' shared hcall hshared =>
    obtain ⟨hI', hown, hother⟩ := hpoll hallowed hcall hshared hI (hP id call hcall)
    refine ⟨hI', fun i c hc => ?_⟩
    dsimp only at hc ⊢
    by_cases hi : i = id
    · subst hi
      rw [Function.update_self, Option.some.injEq] at hc
      exact hc ▸ hown
    · rw [Function.update_of_ne hi] at hc
      exact hother i c (hP i c hc)
  | moved event shared hshared =>
    obtain ⟨hI', hother⟩ := henv hshared hI
    exact ⟨hI', fun i c hc => hother i c (hP i c hc)⟩

/-! ### Duties -/

/-- Some call has the duty. -/
def Owed (duty : κ → Prop) (calls : ι → Option κ) : Prop :=
  ∃ id call, calls id = some call ∧ duty call

variable {duty : κ → Prop} {calls : ι → Option κ}

/-- A step of a call that does not shed the duty leaves it with somebody. -/
theorem Owed.update (h : Owed duty calls) (hkeeps : ∀ c, calls id = some c → duty c → duty call) :
    Owed duty (Function.update calls id (some call)) := by
  obtain ⟨i, c, hc, hduty⟩ := h
  by_cases hi : i = id
  · subst hi
    exact ⟨i, call, Function.update_self .., hkeeps c hc hduty⟩
  · exact ⟨i, c, by rwa [Function.update_of_ne hi], hduty⟩

theorem owed_update_self (h : duty call) : Owed duty (Function.update calls id (some call)) :=
  ⟨id, call, Function.update_self .., h⟩

/-! ### Calls that come to an end -/

/-- Everyone who has a call is in `ids`. -/
def CallsWithin (calls : ι → Option κ) (ids : Finset ι) : Prop := ∀ i, calls i ≠ none → i ∈ ids

variable {rank : κ → ℕ} {ids : Finset ι}

/-- A step of a call adds nobody, -/
theorem CallsWithin.update (h : CallsWithin calls ids) (hcall : calls id ≠ none) :
    CallsWithin (Function.update calls id (some call)) ids := by
  intro i hi
  by_cases hne : i = id
  · exact hne ▸ h id hcall
  · rw [Function.update_of_ne hne] at hi
    exact h i hi

/-- and a call that is made adds its own. -/
theorem CallsWithin.insert (h : CallsWithin calls ids) :
    CallsWithin (Function.update calls id (some call)) (insert id ids) := by
  intro i hi
  by_cases hne : i = id
  · exact Finset.mem_insert.mpr (Or.inl hne)
  · rw [Function.update_of_ne hne] at hi
    exact Finset.mem_insert_of_mem (h i hi)

omit [DecidableEq ι] in
theorem callsWithin_empty : CallsWithin (fun _ : ι => (none : Option κ)) ∅ :=
  fun _ h => absurd rfl h

/-- What is left of all calls together. -/
def callsTotal (rank : κ → ℕ) (ids : Finset ι) (calls : ι → Option κ) : ℕ :=
  ∑ i ∈ ids, (calls i).elim 0 rank

/-- A call that gets nearer to its end brings all calls together nearer, if no other gets further
from its own. -/
theorem callsTotal_update_lt {rank' : κ → ℕ} (hid : id ∈ ids) (hcall : calls id = some call)
    (hlt : rank' call' < rank call) (hle : ∀ c, rank' c ≤ rank c) :
    callsTotal rank' ids (Function.update calls id (some call')) < callsTotal rank ids calls := by
  refine Finset.sum_lt_sum (fun i _ => ?_) ⟨id, hid, ?_⟩
  · by_cases hi : i = id
    · subst hi
      rw [Function.update_self, hcall]
      exact hlt.le
    · rw [Function.update_of_ne hi]
      cases calls i with
      | none => exact le_refl _
      | some c => exact hle c
  · rw [Function.update_self, hcall]
    exact hlt

/-- **Where every step brings one call nearer to its end**, and none further from it, every run
ends. How far a call is may depend on the state. -/
theorem acc_of_weight {step : σ → σ → Prop} (I : σ → Prop) (calls : σ → ι → Option κ)
    (weight : σ → κ → ℕ) {s : σ}
    (hstep : ∀ s s', I s → step s s' → I s' ∧ ∃ id call call', calls s id = some call ∧
      calls s' = Function.update (calls s) id (some call') ∧ weight s' call' < weight s call ∧
        ∀ c, weight s' c ≤ weight s c)
    (hs : I s) (h : CallsWithin (calls s) ids) : Acc (fun s' s => step s s') s := by
  obtain ⟨n, hn⟩ : ∃ n, n = callsTotal (weight s) ids (calls s) := ⟨_, rfl⟩
  induction n using Nat.strong_induction_on generalizing s with
  | _ n ih =>
    refine ⟨s, fun s' hs' => ?_⟩
    obtain ⟨hI, id, call, call', hcall, hcalls, hlt, hle⟩ := hstep s s' hs hs'
    have hsome : calls s id ≠ none := by simp [hcall]
    refine ih _ ?_ hI (hcalls ▸ h.update hsome) rfl
    rw [hn, hcalls]
    exact callsTotal_update_lt (h id hsome) hcall hlt hle

/-- And so where it does not. -/
theorem acc_of_rank {step : σ → σ → Prop} (calls : σ → ι → Option κ) {s : σ}
    (hstep : ∀ s s', step s s' → ∃ id call call', calls s id = some call ∧
      calls s' = Function.update (calls s) id (some call') ∧ rank call' < rank call)
    (h : CallsWithin (calls s) ids) : Acc (fun s' s => step s s') s := by
  refine acc_of_weight (fun _ => True) calls (fun _ => rank) (fun s s' _ hs => ?_) trivial h
  obtain ⟨id, call, call', hcall, hcalls, hlt⟩ := hstep s s' hs
  exact ⟨trivial, id, call, call', hcall, hcalls, hlt, fun _ => le_refl _⟩

/-- Only finitely many calls of a pool have been made. -/
theorem Pool.exists_callsWithin {allowed : Pool σ κ ι → PoolLabel ι ω χ ε → Prop}
    (h : Runs (Pool.step spec) allowed pool pool') (hids : CallsWithin pool.calls ids) :
    ∃ ids', CallsWithin pool'.calls ids' := by
  refine h.invariant (fun pool => ∃ ids, CallsWithin pool.calls ids) ⟨ids, hids⟩ ?_
  rintro pool label pool' ⟨ids, hids⟩ - hstep
  cases Pool.stepped hstep with
  | called id op hnone => exact ⟨insert id ids, hids.insert⟩
  | polled id choice call call' shared hcall hpoll => exact ⟨ids, hids.update (by simp [hcall])⟩
  | moved event shared _ => exact ⟨ids, hids⟩
