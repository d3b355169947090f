import Mathlib.Data.List.Nodup
import Mathlib.Logic.Function.Basic
import Mathlib.Tactic.Common

/-!
# A fair mutex

The state of a first-in, first-out mutex: the queue of those who hold it or wait for it, with the
holder at its head. Whoever leaves hands the mutex to the next in the queue in the same step,
before that one has run again, and a waiter can leave before its turn. There is no state in which
the mutex is free and somebody waits.

`granted` is a ghost: everyone the mutex was ever given to, in order.

## Main results

* `FifoMutex.Once.request`, `FifoMutex.Once.leave` — where everyone asks at most once, the history
  has no repetition and ends with the holder
* `FifoMutex.Move.granted_place` — the history grows by those who wait
* `FifoMutex.Move.ahead`, `FifoMutex.Ahead.of_holder` — nobody overtakes
* `FifoMutex.Logged.step` — what is written under the mutex is logged in order
* `FifoMutex.Precedes.step`, `FifoMutex.Precedes.log` — which is the order of the requests
-/

/-- A fair mutex. -/
@[ext] structure FifoMutex (ι : Type) where
  queue : List ι := []
  granted : List ι := []
  deriving DecidableEq, Repr

namespace FifoMutex

variable {ι : Type} {m : FifoMutex ι} {i j : ι}

/-- Who holds the mutex. -/
def holder (m : FifoMutex ι) : Option ι := m.queue.head?

/-- Join the queue. At an empty queue this is the acquisition. -/
def request (m : FifoMutex ι) (i : ι) : FifoMutex ι where
  queue := m.queue ++ [i]
  granted := if m.queue.isEmpty then m.granted ++ [i] else m.granted

/-- Leave the queue. For the holder this is the release, which hands over to the next. -/
def leave [DecidableEq ι] (m : FifoMutex ι) (i : ι) : FifoMutex ι :=
  if m.holder = some i then ⟨m.queue.tail, m.granted ++ m.queue.tail.head?.toList⟩
  else ⟨m.queue.erase i, m.granted⟩

/-- Everyone has asked for the mutex at most once: the history, and those still waiting behind
the holder, have no repetition; and the holder is the last of the history. -/
structure Once (m : FifoMutex ι) : Prop where
  nodup : (m.granted ++ m.queue.tail).Nodup
  last : ∀ i, m.holder = some i → ∃ before, m.granted = before ++ [i]

/-- Nobody has asked yet. -/
theorem once_empty : (⟨[], []⟩ : FifoMutex ι).Once := ⟨List.nodup_nil, nofun⟩

theorem Once.granted_nodup (h : m.Once) : m.granted.Nodup := (List.nodup_append.mp h.nodup).1

theorem mem_queue_of_holder (h : m.holder = some i) : i ∈ m.queue :=
  List.mem_of_mem_head? (Option.mem_def.mpr h)

theorem Once.mem_granted_of_holder (h : m.Once) (hi : m.holder = some i) : i ∈ m.granted := by
  obtain ⟨before, hbefore⟩ := h.last i hi
  rw [hbefore]
  exact List.mem_append_right _ List.mem_cons_self

/-- The holder is the last of the history. -/
theorem Once.holder_last (h : m.Once) (hi : m.holder = some i) :
    ∃ before, m.granted = before ++ [i] ∧ i ∉ before := by
  obtain ⟨before, hbefore⟩ := h.last i hi
  have hnodup := h.granted_nodup
  rw [hbefore, List.nodup_append] at hnodup
  exact ⟨before, hbefore, fun hmem => hnodup.2.2 i hmem i List.mem_cons_self rfl⟩

theorem holder_eq_none : m.holder = none ↔ m.queue = [] := List.head?_eq_none_iff

theorem mem_queue_iff : j ∈ m.queue ↔ m.holder = some j ∨ j ∈ m.queue.tail := by
  rcases m with ⟨_ | ⟨k, rest⟩, granted⟩
  · simp [holder]
  · simp only [holder, List.head?_cons, Option.some.injEq, List.tail_cons, List.mem_cons]
    exact or_congr_left eq_comm

/-! ### Joining -/

theorem holder_request (m : FifoMutex ι) (i : ι) :
    (m.request i).holder = some (m.holder.getD i) := by
  rcases m with ⟨_ | ⟨k, rest⟩, granted⟩ <;> rfl

theorem granted_request (m : FifoMutex ι) (i : ι) :
    (m.request i).granted = m.granted ++ if m.holder = none then [i] else [] := by
  rcases m with ⟨_ | ⟨k, rest⟩, granted⟩ <;> simp [request, holder]

theorem mem_queue_request : j ∈ (m.request i).queue ↔ j ∈ m.queue ∨ j = i := by
  simp [request]

theorem Once.request (h : m.Once) (hgranted : i ∉ m.granted) (hqueue : i ∉ m.queue) :
    (m.request i).Once := by
  rcases m with ⟨_ | ⟨k, rest⟩, granted⟩
  · refine ⟨?_, ?_⟩
    · have hnodup : (granted ++ [i]).Nodup :=
        List.nodup_append.mpr ⟨h.granted_nodup, List.nodup_singleton i,
          fun x hx y hy hxy => hgranted (List.mem_singleton.mp hy ▸ hxy ▸ hx)⟩
      simpa [FifoMutex.request] using hnodup
    · rintro j hj
      obtain rfl := Option.some.inj hj
      exact ⟨granted, rfl⟩
  · refine ⟨?_, h.last⟩
    have hnodup := h.nodup
    simp only [FifoMutex.request, List.tail_cons, List.isEmpty_cons, Bool.false_eq_true,
      if_false, List.cons_append] at hnodup ⊢
    rw [← List.append_assoc, List.nodup_append]
    refine ⟨hnodup, List.nodup_singleton i, ?_⟩
    rintro x hx y hy rfl
    obtain rfl := List.mem_singleton.mp hy
    rcases List.mem_append.mp hx with hx | hx
    · exact hgranted hx
    · exact hqueue (List.mem_cons_of_mem _ hx)

/-! ### Places -/

/-- Where somebody who asks at most once stands. -/
inductive Place where
  /-- Has not asked. -/
  | away
  /-- Is in the queue, and does not yet know whether at its head. -/
  | waiting
  /-- Holds the mutex, and knows it. -/
  | holding
  /-- Has left, or never will ask. -/
  | left
  deriving DecidableEq, Repr

/-- The mutex sees `i` at a place. -/
def At (m : FifoMutex ι) (i : ι) : Place → Prop
  | .away => i ∉ m.queue ∧ i ∉ m.granted
  | .waiting => i ∈ m.queue
  | .holding => m.holder = some i
  | .left => i ∉ m.queue

variable {p : Place}

/-- Somebody in the queue waits or holds, -/
theorem At.of_mem_queue (h : m.At i p) (hi : i ∈ m.queue) : p = .waiting ∨ p = .holding := by
  cases p with
  | away => exact absurd hi h.1
  | waiting => exact Or.inl rfl
  | holding => exact Or.inr rfl
  | left => exact absurd hi h

/-- and whoever waits or holds is in the queue. -/
theorem At.mem_queue (h : m.At i p) (hp : p = .waiting ∨ p = .holding) : i ∈ m.queue := by
  rcases hp with rfl | rfl
  · exact h
  · exact mem_queue_of_holder h

theorem at_request (m : FifoMutex ι) (i : ι) : (m.request i).At i .waiting :=
  mem_queue_request.mpr (Or.inr rfl)

theorem At.request_of_ne (h : m.At j p) (hne : j ≠ i) : (m.request i).At j p := by
  cases p with
  | away =>
    refine ⟨fun hj => (mem_queue_request.mp hj).elim h.1 hne, fun hj => ?_⟩
    rw [granted_request, List.mem_append] at hj
    rcases hj with hj | hj
    · exact h.2 hj
    · split at hj
      · exact hne (List.mem_singleton.mp hj)
      · exact absurd hj List.not_mem_nil
  | waiting => exact mem_queue_request.mpr (Or.inl h)
  | holding =>
    change (m.request i).holder = some j
    rw [holder_request, show m.holder = some j from h]
    rfl
  | left => exact fun hj => (mem_queue_request.mp hj).elim h hne

/-! ### Leaving -/

variable [DecidableEq ι]

theorem holder_leave_of_ne (h : m.holder ≠ some i) : (m.leave i).holder = m.holder := by
  rcases m with ⟨_ | ⟨k, rest⟩, granted⟩
  · rfl
  · have hne : k ≠ i := fun hk => h (congrArg some hk)
    rw [leave, if_neg h]
    simp [holder, List.erase_cons_tail, hne]

theorem holder_leave (h : m.holder = some i) : (m.leave i).holder = m.queue.tail.head? := by
  rw [leave, if_pos h]
  rfl

/-- The history grows only when the holder leaves, by the one who is next. -/
theorem granted_leave (m : FifoMutex ι) (i : ι) :
    (m.leave i).granted
      = m.granted ++ if m.holder = some i then (m.leave i).holder.toList else [] := by
  by_cases h : m.holder = some i
  · rw [if_pos h, holder_leave h, leave, if_pos h]
  · rw [if_neg h, leave, if_neg h, List.append_nil]

theorem mem_queue_leave (h : m.Once) : j ∈ (m.leave i).queue ↔ j ∈ m.queue ∧ j ≠ i := by
  have hnodup : m.queue.Nodup := by
    rcases m with ⟨_ | ⟨k, rest⟩, granted⟩
    · exact List.nodup_nil
    · obtain ⟨before, hbefore⟩ := h.last k rfl
      have hn := h.nodup
      simp only [List.tail_cons] at hbefore hn
      rw [hbefore, List.append_assoc] at hn
      exact (List.nodup_append.mp hn).2.1
  by_cases hi : m.holder = some i
  · rw [leave, if_pos hi]
    rcases m with ⟨_ | ⟨k, rest⟩, granted⟩
    · exact absurd hi nofun
    · obtain rfl : k = i := Option.some.inj hi
      obtain ⟨hk, -⟩ := List.nodup_cons.mp hnodup
      simp only [List.tail_cons, List.mem_cons]
      constructor
      · exact fun hj => ⟨Or.inr hj, fun hji => hk (hji ▸ hj)⟩
      · rintro ⟨hj | hj, hne⟩
        · exact absurd hj hne
        · exact hj
  · rw [leave, if_neg hi, hnodup.mem_erase_iff]
    exact and_comm

theorem Once.leave (h : m.Once) (i : ι) : (m.leave i).Once := by
  by_cases hi : m.holder = some i
  · rw [FifoMutex.leave, if_pos hi]
    rcases m with ⟨_ | ⟨k, _ | ⟨j, rest⟩⟩, granted⟩
    · exact absurd hi nofun
    · exact ⟨by simpa using h.granted_nodup, nofun⟩
    · refine ⟨by simpa using h.nodup, ?_⟩
      rintro x hx
      obtain rfl := Option.some.inj hx
      exact ⟨granted, rfl⟩
  · rw [FifoMutex.leave, if_neg hi]
    rcases m with ⟨_ | ⟨k, rest⟩, granted⟩
    · exact ⟨by simpa using h.granted_nodup, nofun⟩
    · have hne : k ≠ i := fun hk => hi (congrArg some hk)
      rw [List.erase_cons_tail (by simpa using hne)]
      refine ⟨?_, fun x hx => h.last x hx⟩
      exact h.nodup.sublist (List.Sublist.append_left (List.erase_sublist) _)

theorem Once.at_leave (h : m.Once) (i : ι) : (m.leave i).At i .left :=
  fun hi => ((mem_queue_leave h).mp hi).2 rfl

theorem At.leave_of_ne (h : m.At j p) (honce : m.Once) (hne : j ≠ i) : (m.leave i).At j p := by
  cases p with
  | away =>
    refine ⟨fun hj => h.1 ((mem_queue_leave honce).mp hj).1, fun hj => ?_⟩
    rw [granted_leave, List.mem_append] at hj
    rcases hj with hj | hj
    · exact h.2 hj
    · split at hj
      · have hj' := mem_queue_of_holder (Option.mem_toList.mp hj)
        exact h.1 ((mem_queue_leave honce).mp hj').1
      · exact absurd hj List.not_mem_nil
  | waiting => exact (mem_queue_leave honce).mpr ⟨h, hne⟩
  | holding =>
    have hi : m.holder ≠ some i :=
      fun hi => hne (Option.some.inj ((h : m.holder = _).symm.trans hi))
    exact (holder_leave_of_ne hi).trans h
  | left => exact fun hj => h ((mem_queue_leave honce).mp hj).1

/-! ### Moves -/

/-- What somebody who asks at most once can do to the mutex, with the places before and after. -/
inductive Move (m : FifoMutex ι) (i : ι) : Place → FifoMutex ι → Place → Prop
  | stay (p : Place) : Move m i p m p
  | giveUp : Move m i .away m .left
  | request : Move m i .away (m.request i) .waiting
  | granted : m.holder = some i → Move m i .waiting m .holding
  | leave (p : Place) : Move m i p (m.leave i) .left

variable {m' : FifoMutex ι} {p' q : Place}

/-- **A move keeps the history without repetition.** -/
theorem Move.once (h : Move m i p m' p') (honce : m.Once) (hat : m.At i p) : m'.Once := by
  cases h with
  | stay => exact honce
  | giveUp => exact honce
  | request => exact honce.request hat.2 hat.1
  | granted _ => exact honce
  | leave => exact honce.leave i

/-- A move puts the mover at its new place, -/
theorem Move.at_self (h : Move m i p m' p') (honce : m.Once) (hat : m.At i p) : m'.At i p' := by
  cases h with
  | stay => exact hat
  | giveUp => exact hat.1
  | request => exact at_request m i
  | granted hholder => exact hholder
  | leave => exact honce.at_leave i

/-- and leaves everybody else at theirs. -/
theorem Move.at_of_ne (h : Move m i p m' p') (honce : m.Once) (hat : m.At j q) (hne : j ≠ i) :
    m'.At j q := by
  cases h with
  | stay => exact hat
  | giveUp => exact hat
  | request => exact hat.request_of_ne hne
  | granted _ => exact hat
  | leave => exact hat.leave_of_ne honce hne

/-- **How the history grows.** By the mover, when it asks for a free mutex; or by one that waits,
when the holder leaves. -/
theorem Move.granted_eq (h : Move m i p m' p') (honce : m.Once) :
    ∃ added, m'.granted = m.granted ++ added ∧
      ∀ k ∈ added, (k = i ∧ p' = .waiting) ∨ (k ≠ i ∧ k ∈ m.queue ∧ m.holder = some i) := by
  cases h with
  | stay => exact ⟨[], by simp, by simp⟩
  | giveUp => exact ⟨[], by simp, by simp⟩
  | request =>
    refine ⟨_, granted_request m i, fun k hk => Or.inl ⟨?_, rfl⟩⟩
    split at hk
    · exact List.mem_singleton.mp hk
    · exact absurd hk List.not_mem_nil
  | granted _ => exact ⟨[], by simp, by simp⟩
  | leave =>
    refine ⟨_, granted_leave m i, fun k hk => Or.inr ?_⟩
    split at hk
    · next hholder =>
      have hk' := (mem_queue_leave honce).mp (mem_queue_of_holder (Option.mem_toList.mp hk))
      exact ⟨hk'.2, hk'.1, hholder⟩
    · exact absurd hk List.not_mem_nil

/-- Whoever is given the mutex in a move was waiting for it, and has not noticed yet. -/
theorem Move.granted_place (place : ι → Place) (h : Move m i (place i) m' p') (honce : m.Once)
    (hat : ∀ j, m.At j (place j)) :
    ∃ added, m'.granted = m.granted ++ added ∧
      ∀ k ∈ added, Function.update place i p' k = .waiting := by
  obtain ⟨added, hgranted, hadded⟩ := h.granted_eq honce
  refine ⟨added, hgranted, fun k hk => ?_⟩
  rcases hadded k hk with ⟨rfl, hwaiting⟩ | ⟨hne, hqueue, hholder⟩
  · rw [Function.update_self, hwaiting]
  · rw [Function.update_of_ne hne]
    rcases (hat k).of_mem_queue hqueue with hplace | hplace
    · exact hplace
    · have hk := hat k
      rw [hplace] at hk
      exact absurd (Option.some.inj ((show _ = some k from hk).symm.trans hholder)) hne

/-! ### Nobody overtakes -/

/-- Everyone who has asked for the mutex and has not given up, in order. -/
def order (m : FifoMutex ι) : List ι := m.granted ++ m.queue.tail

/-- `i` has asked for the mutex, and `j` has not, or later. -/
def Ahead (m : FifoMutex ι) (i j : ι) : Prop := ∃ a b, m.order = a ++ b ∧ i ∈ a ∧ j ∉ a

variable {k : ι}

omit [DecidableEq ι] in
theorem Once.mem_order (h : m.Once) (hi : i ∈ m.queue) : i ∈ m.order := by
  rcases mem_queue_iff.mp hi with hholder | htail
  · exact List.mem_append_left _ (h.mem_granted_of_holder hholder)
  · exact List.mem_append_right _ htail

omit [DecidableEq ι] in
/-- Whoever waits is ahead of whoever has not asked. -/
theorem Once.ahead (h : m.Once) (hi : i ∈ m.queue) (hj : m.At j .away) : m.Ahead i j := by
  refine ⟨m.order, [], (List.append_nil _).symm, h.mem_order hi, fun hmem => ?_⟩
  rcases List.mem_append.mp hmem with hmem | hmem
  · exact hj.2 hmem
  · exact hj.1 (List.mem_of_mem_tail hmem)

omit [DecidableEq ι] in
theorem order_request (m : FifoMutex ι) (k : ι) : (m.request k).order = m.order ++ [k] := by
  rcases m with ⟨_ | ⟨l, rest⟩, granted⟩ <;> simp [order, request]

theorem order_leave (h : m.holder = some k) : (m.leave k).order = m.order := by
  rw [leave, if_pos h]
  rcases m with ⟨_ | ⟨l, _ | ⟨n, rest⟩⟩, granted⟩
  · exact absurd h nofun
  · simp [order]
  · simp [order]

/-- **A move keeps the order**, but for one who gives up waiting. -/
theorem Move.ahead (h : Move m k p m' p') (hat : m.At k p)
    (hwait : k = i → p = .waiting → p' ≠ .left) (hahead : m.Ahead i j) : m'.Ahead i j := by
  obtain ⟨a, b, hab, hi, hj⟩ := hahead
  cases h with
  | stay => exact ⟨a, b, hab, hi, hj⟩
  | giveUp => exact ⟨a, b, hab, hi, hj⟩
  | granted _ => exact ⟨a, b, hab, hi, hj⟩
  | request =>
    exact ⟨a, b ++ [k], by rw [order_request, hab, List.append_assoc], hi, hj⟩
  | leave =>
    by_cases hholder : m.holder = some k
    · exact ⟨a, b, by rw [order_leave hholder, hab], hi, hj⟩
    by_cases hqueue : k ∈ m.queue
    · -- it gives up its place among those who wait, and is not `i`
      have hne : k ≠ i := by
        intro hk
        rcases hat.of_mem_queue hqueue with rfl | rfl
        · exact hwait hk rfl rfl
        · exact hholder hat
      have hleave : (m.leave k).order = m.granted ++ m.queue.tail.erase k := by
        rw [FifoMutex.leave, if_neg hholder]
        rcases m with ⟨_ | ⟨l, rest⟩, granted⟩
        · exact absurd hqueue List.not_mem_nil
        · have hl : l ≠ k := fun hl => hholder (congrArg some hl)
          simp [order, List.erase_cons_tail, hl]
      rw [Ahead, hleave]
      rcases List.append_eq_append_iff.mp hab with ⟨x, rfl, htail⟩ | ⟨x, hgranted, rfl⟩
      · rw [htail, List.erase_append]
        split
        · refine ⟨m.granted ++ x.erase k, b, by rw [List.append_assoc], ?_, fun hmem => hj ?_⟩
          · rcases List.mem_append.mp hi with hi | hi
            · exact List.mem_append_left _ hi
            · exact List.mem_append_right _ ((List.mem_erase_of_ne hne.symm).mpr hi)
          · rcases List.mem_append.mp hmem with hmem | hmem
            · exact List.mem_append_left _ hmem
            · exact List.mem_append_right _ (List.mem_of_mem_erase hmem)
        · exact ⟨m.granted ++ x, b.erase k, by rw [List.append_assoc], hi, hj⟩
      · exact ⟨a, x ++ m.queue.tail.erase k, by rw [hgranted, List.append_assoc], hi, hj⟩
    · have hleave : m.leave k = m := by
        rw [FifoMutex.leave, if_neg hholder, List.erase_of_not_mem hqueue]
      exact ⟨a, b, by rw [hleave, hab], hi, hj⟩

omit [DecidableEq ι] in
/-- Once the mutex is at the later one, the earlier one has had it and has left. -/
theorem Ahead.of_holder (h : m.Ahead i j) (honce : m.Once) (hj : m.holder = some j) :
    i ∈ m.granted ∧ i ∉ m.queue := by
  obtain ⟨a, b, hab, hi, hja⟩ := h
  obtain ⟨before, hbefore, -⟩ := honce.holder_last hj
  have hmem : i ∈ before := by
    rw [order, hbefore, List.append_assoc] at hab
    rcases List.append_eq_append_iff.mp hab with ⟨x, rfl, hx⟩ | ⟨x, rfl, -⟩
    · rcases x with _ | ⟨y, x⟩
      · simpa using hi
      · obtain rfl : j = y := (List.cons.inj hx).1
        exact absurd (List.mem_append_right _ List.mem_cons_self) hja
    · exact List.mem_append_left _ hi
  have hgranted : i ∈ m.granted := hbefore ▸ List.mem_append_left _ hmem
  refine ⟨hgranted, fun hqueue => ?_⟩
  rcases mem_queue_iff.mp hqueue with hholder | htail
  · obtain rfl : j = i := Option.some.inj (hj.symm.trans hholder)
    have hnodup := honce.granted_nodup
    rw [hbefore, List.nodup_append] at hnodup
    exact hnodup.2.2 j hmem j List.mem_cons_self rfl
  · exact (List.nodup_append.mp honce.nodup).2.2 i hgranted i htail rfl

/-! ### Logs -/

/-- A log that everyone writes while holding the mutex, each its own part. -/
structure Logged {β : Type} (m : FifoMutex ι) (place : ι → Place) (own : ι → List β)
    (log : List β) : Prop where
  once : m.Once
  at_place : ∀ i, m.At i (place i)
  waiting : ∀ i, place i = .waiting → own i = []
  /-- The parts stand one after the other, in the order of the history. -/
  log_eq : log = m.granted.flatMap own
  mem : ∀ i, own i ≠ [] → i ∈ m.granted

omit [DecidableEq ι] in
theorem logged_empty {β : Type} {place : ι → Place} (hplace : ∀ i, place i = .away) :
    Logged (⟨[], []⟩ : FifoMutex ι) place (fun _ => ([] : List β)) [] where
  once := once_empty
  at_place i := by
    rw [hplace i]
    exact ⟨List.not_mem_nil, List.not_mem_nil⟩
  waiting _ _ := rfl
  log_eq := rfl
  mem _ h := absurd rfl h

/-- **What is written under the mutex is logged in order.** -/
theorem Logged.step {β : Type} {place place' : ι → Place} {own own' : ι → List β}
    {log bytes : List β} (h : Logged m place own log) (hmove : m.Move k (place k) m' (place' k))
    (hplace : ∀ i, i ≠ k → place' i = place i) (hown : ∀ i, i ≠ k → own' i = own i)
    (hself : own' k = own k ++ bytes) (hholds : bytes ≠ [] → m.holder = some k)
    (hwaiting : place' k = .waiting → own' k = []) : Logged m' place' own' (log ++ bytes) := by
  have hwaits : ∀ i, place' i = .waiting → own' i = [] := by
    intro i hi
    by_cases hik : i = k
    · subst hik
      exact hwaiting hi
    · rw [hown i hik]
      exact h.waiting i (hplace i hik ▸ hi)
  obtain ⟨added, hgranted, hadded⟩ := hmove.granted_place place h.once h.at_place
  have hnone : added.flatMap own' = [] := by
    refine List.flatMap_eq_nil_iff.mpr fun i hi => hwaits i ?_
    rw [← hadded i hi]
    by_cases hik : i = k
    · rw [hik, Function.update_self]
    · rw [Function.update_of_ne hik, hplace i hik]
  refine ⟨hmove.once h.once (h.at_place k), fun i => ?_, hwaits, ?_, fun i hi => ?_⟩
  · by_cases hik : i = k
    · subst hik
      exact hmove.at_self h.once (h.at_place i)
    · rw [hplace i hik]
      exact hmove.at_of_ne h.once (h.at_place i) hik
  · rw [h.log_eq, hgranted, List.flatMap_append, hnone, List.append_nil]
    by_cases hbytes : bytes = []
    · -- nobody's part grows
      rw [hbytes, List.append_nil]
      refine List.flatMap_congr fun i _ => ?_
      by_cases hik : i = k
      · rw [hik, hself, hbytes, List.append_nil]
      · exact (hown i hik).symm
    · -- the part that grows is the last one
      obtain ⟨before, hbefore, hmem⟩ := h.once.holder_last (hholds hbytes)
      have hcongr : before.flatMap own' = before.flatMap own :=
        List.flatMap_congr fun i hi => hown i fun hik => hmem (hik ▸ hi)
      simp only [hbefore, List.flatMap_append, List.flatMap_singleton, hcongr, hself,
        List.append_assoc]
  · rw [hgranted]
    refine List.mem_append_left _ ?_
    by_cases hik : i = k
    · subst hik
      by_cases hbytes : bytes = []
      · rw [hself, hbytes, List.append_nil] at hi
        exact h.mem i hi
      · exact h.once.mem_granted_of_holder (hholds hbytes)
    · exact h.mem i (hown i hik ▸ hi)

/-! ### Logs are in the order of the requests -/

/-- `i` has asked for the mutex ahead of `j`, or has left without a part in the log. -/
structure Precedes {β : Type} (m : FifoMutex ι) (place : ι → Place) (own : ι → List β) (i j : ι) :
    Prop where
  asked : place i ≠ .away
  ahead : m.Ahead i j ∨ (place i = .left ∧ own i = [])

omit [DecidableEq ι] in
theorem At.not_mem_order (h : m.At j .away) : j ∉ m.order := by
  intro hmem
  rcases List.mem_append.mp hmem with hmem | hmem
  · exact h.2 hmem
  · exact h.1 (List.mem_of_mem_tail hmem)

omit [DecidableEq ι] in
/-- Whoever has asked and is not in the queue has left. -/
theorem At.eq_left (h : m.At i p) (hp : p ≠ .away) (hqueue : i ∉ m.queue) : p = .left := by
  cases p with
  | away => exact absurd rfl hp
  | waiting => exact absurd h hqueue
  | holding => exact absurd (mem_queue_of_holder h) hqueue
  | left => rfl

omit [DecidableEq ι] in
/-- Whoever has asked precedes whoever has not. -/
theorem Logged.precedes {β : Type} {place : ι → Place} {own : ι → List β} {log : List β}
    (h : Logged m place own log) (hi : place i ≠ .away) (hj : place j = .away) :
    Precedes m place own i j := by
  have hat := h.at_place i
  have haway := h.at_place j
  rw [hj] at haway
  refine ⟨hi, ?_⟩
  by_cases hqueue : i ∈ m.queue
  · exact Or.inl (h.once.ahead hqueue haway)
  · by_cases hown : own i = []
    · exact Or.inr ⟨hat.eq_left hi hqueue, hown⟩
    · exact Or.inl ⟨m.order, [], (List.append_nil _).symm,
        List.mem_append_left _ (h.mem i hown), haway.not_mem_order⟩

/-- A move leads nobody back, -/
theorem Move.ne_away (h : Move m i p m' p') (hp : p ≠ .away) : p' ≠ .away := by
  cases h with
  | stay => exact hp
  | giveUp => exact absurd rfl hp
  | request => exact absurd rfl hp
  | granted _ => simp
  | leave => simp

/-- and nobody on who has left. -/
theorem Move.left (h : Move m i .left m' p') : p' = .left := by
  cases h with
  | stay => rfl
  | leave => rfl

/-- **A move keeps the precedence.** Who gives up waiting has no part in the log. -/
theorem Precedes.step {β : Type} {place place' : ι → Place} {own own' : ι → List β}
    {log bytes : List β} (h : Precedes m place own i j) (hlogged : Logged m place own log)
    (hmove : Move m k (place k) m' (place' k)) (hplace : ∀ i, i ≠ k → place' i = place i)
    (hown : ∀ i, i ≠ k → own' i = own i) (hself : own' k = own k ++ bytes)
    (hholds : bytes ≠ [] → place k = .holding) : Precedes m' place' own' i j := by
  have hquiet : place k ≠ .holding → own k = [] → own' k = [] := by
    intro hnot hnil
    rw [hself, hnil, List.nil_append]
    by_contra hne
    exact hnot (hholds hne)
  refine ⟨?_, ?_⟩
  · by_cases hik : i = k
    · subst hik
      exact hmove.ne_away h.asked
    · rw [hplace i hik]
      exact h.asked
  rcases h.ahead with hahead | ⟨hleft, hnil⟩
  · by_cases hwithdraws : k = i ∧ place k = .waiting ∧ place' k = .left
    · obtain ⟨rfl, hwaiting, hleft⟩ := hwithdraws
      exact Or.inr ⟨hleft, hquiet (by simp [hwaiting]) (hlogged.waiting k hwaiting)⟩
    · exact Or.inl (hmove.ahead (hlogged.at_place k)
        (fun hki hwaiting hleft => hwithdraws ⟨hki, hwaiting, hleft⟩) hahead)
  · right
    by_cases hik : i = k
    · subst hik
      rw [hleft] at hmove
      exact ⟨hmove.left, hquiet (by simp [hleft]) hnil⟩
    · rw [hplace i hik, hown i hik]
      exact ⟨hleft, hnil⟩

omit [DecidableEq ι] in
/-- Who is ahead of somebody in the history has left, and stands before it there. -/
theorem Ahead.of_granted (h : m.Ahead i j) (honce : m.Once) (hj : j ∈ m.granted) :
    i ∉ m.queue ∧ ∃ before behind, m.granted = before ++ i :: behind ∧ j ∈ behind := by
  obtain ⟨a, b, hab, hi, hja⟩ := h
  obtain ⟨x, hgranted⟩ : ∃ x, m.granted = a ++ x := by
    rcases List.append_eq_append_iff.mp hab with ⟨y, rfl, -⟩ | ⟨x, hx, -⟩
    · exact absurd (List.mem_append_left _ hj) hja
    · exact ⟨x, hx⟩
  have hjx : j ∈ x := by
    rw [hgranted] at hj
    exact (List.mem_append.mp hj).resolve_left hja
  obtain ⟨before, rest, rfl⟩ := List.append_of_mem hi
  have hgranted' : m.granted = before ++ i :: (rest ++ x) := by simp [hgranted]
  refine ⟨fun hqueue => ?_, before, rest ++ x, hgranted', List.mem_append_right _ hjx⟩
  have hmem : i ∈ m.granted := by simp [hgranted']
  rcases mem_queue_iff.mp hqueue with hholder | htail
  · -- the holder is the last of the history, and `j` stands behind it
    obtain ⟨all, hall, hnot⟩ := honce.holder_last hholder
    obtain ⟨y, z, hyz⟩ : ∃ y z, rest ++ x = y ++ [z] := by
      rcases List.eq_nil_or_concat (rest ++ x) with hnil | ⟨y, z, hyz⟩
      · rw [List.append_eq_nil_iff] at hnil
        rw [hnil.2] at hjx
        exact absurd hjx List.not_mem_nil
      · exact ⟨y, z, by rw [hyz, List.concat_eq_append]⟩
    rw [hgranted', hyz, ← List.cons_append, ← List.append_assoc] at hall
    obtain ⟨rfl, -⟩ := List.append_inj' hall rfl
    exact hnot (by simp)
  · exact (List.nodup_append.mp honce.nodup).2.2 i hmem i htail rfl

omit [DecidableEq ι] in
/-- **Whoever precedes somebody in the log has left**, and its part stands before. -/
theorem Precedes.log {β : Type} {place : ι → Place} {own : ι → List β} {log : List β}
    (h : Precedes m place own i j) (hlogged : Logged m place own log) (hj : own j ≠ []) :
    place i = .left ∧ ∃ a b c, log = a ++ own i ++ b ++ own j ++ c := by
  have hgranted := hlogged.mem j hj
  rcases h.ahead with hahead | ⟨hleft, hnil⟩
  · obtain ⟨hqueue, before, behind, heq, hmem⟩ := hahead.of_granted hlogged.once hgranted
    obtain ⟨between, rest, rfl⟩ := List.append_of_mem hmem
    refine ⟨(hlogged.at_place i).eq_left h.asked hqueue, before.flatMap own, between.flatMap own,
      rest.flatMap own, ?_⟩
    rw [hlogged.log_eq, heq]
    simp [List.flatMap_append]
  · obtain ⟨before, behind, heq⟩ := List.append_of_mem hgranted
    refine ⟨hleft, before.flatMap own, [], behind.flatMap own, ?_⟩
    rw [hlogged.log_eq, heq, hnil]
    simp [List.flatMap_append]

end FifoMutex
