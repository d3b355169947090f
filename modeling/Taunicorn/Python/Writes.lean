import Taunicorn.Transport.Order

/-!
# Cancelled writes in the Python binding

`PyConnection.send`, `write`, `write_all_timeout` and `shutdown_write`, and `PyWriteHalf.send`,
`write` and `shutdown_write`: each awaits the operation of the core behind a guard. Python cancels
a call by dropping its async block, first the awaited operation with its place at the write gate,
and then the guard. A panic of the operation unwinds the block in the same order. The guard of a
call that was dropped, has failed or has panicked spawns a task that closes the connection, or shuts
the write half down, and does nothing else.

Dropping the operation hands the gate to the next in its queue. Between that step and the first
effect of the spawned task, the next writer can pass its checks behind the gate and write after the
torn prefix. `Refused` is the condition under which it cannot: the last of these checks refuses it.

## Main results

* `Writes.stepped` — the steps of the binding
* `Writes.core_runs` — a run of the binding is a run of the core
* `nothing_follows` — the condition is enough
* `bytes_follow` — for both objects, a run in which bytes follow
-/

namespace Taunicorn

namespace Python

open Transport

/-- The object whose methods are called. -/
inductive Owner where
  /-- `PyConnection`, with `CloseConnectionUnlessCompleted`. -/
  | connection
  /-- `PyWriteHalf`, with `ShutdownWriteUnlessCompleted`. -/
  | writeHalf
  deriving DecidableEq, Repr

/-- The operation of the task that the guard spawns. -/
def Owner.cleanup : Owner → Op
  | .connection => .close
  | .writeHalf => .shutdownWrite

/-- The methods with a guard. -/
def Owner.offers : Owner → Op → Bool
  | _, .send _ => true
  | _, .writeOnce _ => true
  | .connection, .sendTimeout _ _ => true
  | _, .shutdownWrite => true
  | _, _ => false

/-- The calls of the core: the awaited operation of a Python call, the task that its guard spawns,
and any other. -/
inductive CoreCall (ι κ : Type) where
  | awaited (id : ι)
  | spawned (id : ι)
  | other (k : κ)
  deriving DecidableEq

/-- Where the async block of a Python call stands. -/
inductive PyPC where
  /-- Not polled yet: there is no guard. -/
  | start
  | awaiting
  /-- The operation has failed or was dropped, and the guard is to be dropped. `none` for a block
  that was cancelled or is unwound. -/
  | guard (error : Option Error)
  | done (outcome : Outcome)
  /-- Dropped, cancelled or unwound. -/
  | cancelled

structure PyCall where
  op : Op
  pc : PyPC := .start

/-- The Python calls on one object, and the core under it. -/
structure Writes (ι κ : Type) where
  core : Core (CoreCall ι κ) := {}
  calls : ι → Option PyCall := fun _ => none

/-- Who moves. -/
inductive PyLabel (ι κ : Type) where
  | call (id : ι) (op : Op)
  | poll (id : ι)
  | cancel (id : ι)
  /-- A step of the core alone. -/
  | core (label : Label (CoreCall ι κ))

variable {ι κ : Type} [DecidableEq ι] [DecidableEq κ]

def Writes.set (w : Writes ι κ) (id : ι) (call : PyCall) : Writes ι κ :=
  { w with calls := Function.update w.calls id (some call) }

/-- One step of an async block. -/
def Writes.poll (owner : Owner) (w : Writes ι κ) (id : ι) (call : PyCall) : Option (Writes ι κ) :=
  match call.pc with
  | .start => (w.core.step (.call (.awaited id) call.op)).map fun core =>
    { w.set id { call with pc := .awaiting } with core := core }
  | .awaiting =>
    match (w.core.calls (.awaited id)).map Call.pc with
    | some (.done (.ok v)) => some (w.set id { call with pc := .done (.ok v) })
    | some (.done (.error e)) => some (w.set id { call with pc := .guard (some e) })
    | some .panicked => some (w.set id { call with pc := .guard none })
    | _ => none
  | .guard error => (w.core.step (.call (.spawned id) owner.cleanup)).map fun core =>
    { w.set id { call with pc := error.elim .cancelled fun e => .done (.error e) } with
      core := core }
  | .done _ => none
  | .cancelled => none

/-- Drop an async block at its await point, or before its first poll. -/
def Writes.cancel (w : Writes ι κ) (id : ι) (call : PyCall) : Option (Writes ι κ) :=
  match call.pc with
  | .start => some (w.set id { call with pc := .cancelled })
  | .awaiting => (w.core.step (.drop (.awaited id))).map fun core =>
    { w.set id { call with pc := .guard none } with core := core }
  | _ => none

/-- The steps of the core that belong to it alone. A spawned task is not dropped, and the other
calls hand over no bytes. -/
def ownLabel : Label (CoreCall ι κ) → Bool
  | .call (.other _) op => op.buffer.isEmpty
  | .poll _ _ => true
  | .drop (.other _) => true
  | _ => false

/-- **One step of the binding.** -/
def Writes.step (owner : Owner) (w : Writes ι κ) : PyLabel ι κ → Option (Writes ι κ)
  | .call id op =>
    match w.calls id with
    | none => if owner.offers op then some (w.set id { op := op }) else none
    | some _ => none
  | .poll id => (w.calls id).bind fun call => w.poll owner id call
  | .cancel id => (w.calls id).bind fun call => w.cancel id call
  | .core label =>
    if ownLabel label then (w.core.step label).map fun core => { w with core := core } else none

/-- **The condition.** Where a call was torn, a writing call that makes the last of its checks
behind the gate, the load of the raw stream's slot, finds the slot empty. -/
def Refused (w : Writes ι κ) : PyLabel ι κ → Prop
  | .core label => Guarded .stream w.core label
  | _ => True

/-- After a cancelled call that has handed over a piece of its buffer, no bytes were handed over:
the wire consists of the bytes of those who were given the gate before it, and of its own. -/
def NothingFollows (w : Writes ι κ) : Prop :=
  ∀ id call, w.core.calls (.awaited id) = some call → call.op.whole = true →
    call.pc = .dropped → call.handed ≠ [] → call.handed ≠ call.op.buffer →
    ∃ earlier later, w.core.shared.writeGate.granted = earlier ++ .awaited id :: later ∧
      w.core.shared.wire = earlier.flatMap w.core.handed ++ call.handed

variable {owner : Owner} {w w' : Writes ι κ} {label : PyLabel ι κ}

/-! ### The steps of the binding -/

/-- The steps of the binding, each with its step of the core. -/
inductive Writes.Stepped (owner : Owner) (w : Writes ι κ) : PyLabel ι κ → Writes ι κ → Prop
  | called (id : ι) (op : Op) : w.calls id = none → owner.offers op = true →
      Stepped owner w (.call id op) (w.set id { op := op })
  | started (id : ι) (call : PyCall) (core : Core (CoreCall ι κ)) : w.calls id = some call →
      call.pc = .start → w.core.step (.call (.awaited id) call.op) = some core →
      Stepped owner w (.poll id) { w.set id { call with pc := .awaiting } with core := core }
  /-- The awaited operation has returned, and the guard is told so or is still to be dropped. -/
  | returned (id : ι) (call : PyCall) (outcome : Outcome) : w.calls id = some call →
      call.pc = .awaiting →
      (w.core.calls (.awaited id)).map Call.pc = some (.done outcome) →
      Stepped owner w (.poll id) (w.set id { call with
        pc := match outcome with
          | .ok v => .done (.ok v)
          | .error e => .guard (some e) })
  /-- The awaited operation has panicked. -/
  | unwound (id : ι) (call : PyCall) : w.calls id = some call → call.pc = .awaiting →
      (w.core.calls (.awaited id)).map Call.pc = some .panicked →
      Stepped owner w (.poll id) (w.set id { call with pc := .guard none })
  | unguarded (id : ι) (call : PyCall) (error : Option Error) (core : Core (CoreCall ι κ)) :
      w.calls id = some call → call.pc = .guard error →
      w.core.step (.call (.spawned id) owner.cleanup) = some core →
      Stepped owner w (.poll id)
        { w.set id { call with pc := error.elim .cancelled fun e => .done (.error e) } with
          core := core }
  | unstarted (id : ι) (call : PyCall) : w.calls id = some call → call.pc = .start →
      Stepped owner w (.cancel id) (w.set id { call with pc := .cancelled })
  | dropped (id : ι) (call : PyCall) (core : Core (CoreCall ι κ)) : w.calls id = some call →
      call.pc = .awaiting → w.core.step (.drop (.awaited id)) = some core →
      Stepped owner w (.cancel id) { w.set id { call with pc := .guard none } with core := core }
  | core (label : Label (CoreCall ι κ)) (core : Core (CoreCall ι κ)) : ownLabel label = true →
      w.core.step label = some core → Stepped owner w (.core label) { w with core := core }

theorem Writes.stepped_poll {id : ι} {call : PyCall} (hcall : w.calls id = some call)
    (h : w.poll owner id call = some w') : Writes.Stepped owner w (.poll id) w' := by
  unfold Writes.poll at h
  split at h
  · next hpc =>
    obtain ⟨core, hcore, rfl⟩ := Option.map_eq_some_iff.mp h
    exact .started id call core hcall hpc hcore
  · next hpc =>
    split at h
    · next v hv => cases h; exact .returned id call (.ok v) hcall hpc hv
    · next e he => cases h; exact .returned id call (.error e) hcall hpc he
    · next hpanicked => cases h; exact .unwound id call hcall hpc hpanicked
    · exact absurd h nofun
  · next error hpc =>
    obtain ⟨core, hcore, rfl⟩ := Option.map_eq_some_iff.mp h
    exact .unguarded id call error core hcall hpc hcore
  · exact absurd h nofun
  · exact absurd h nofun

/-- **The list is complete.** -/
theorem Writes.stepped (h : w.step owner label = some w') : Writes.Stepped owner w label w' := by
  unfold Writes.step at h
  split at h
  case h_1 id op =>
    split at h
    · next hnone =>
      split_ifs at h with hoffers
      cases h
      exact .called id op hnone hoffers
    · exact absurd h nofun
  case h_2 id =>
    obtain ⟨call, hcall, hpoll⟩ := Option.bind_eq_some_iff.mp h
    exact Writes.stepped_poll hcall hpoll
  case h_3 id =>
    obtain ⟨call, hcall, hcancel⟩ := Option.bind_eq_some_iff.mp h
    unfold Writes.cancel at hcancel
    split at hcancel
    · next hpc => cases hcancel; exact .unstarted id call hcall hpc
    · next hpc =>
      obtain ⟨core, hcore, rfl⟩ := Option.map_eq_some_iff.mp hcancel
      exact .dropped id call core hcall hpc hcore
    · exact absurd hcancel nofun
  case h_4 l =>
    split_ifs at h with hown
    obtain ⟨core, hcore, rfl⟩ := Option.map_eq_some_iff.mp h
    exact .core l core hown hcore

/-- A step of the binding is a step of the core, or none. The polls of the core are its own steps,
and the drops are its own or those of the awaited calls. -/
theorem Writes.core_step (h : w.step owner label = some w') : w'.core = w.core ∨
    ∃ l, w.core.step l = some w'.core ∧ (label = .core l ∨ (∃ id op, l = .call id op) ∨
      ∃ id, l = .drop (.awaited id) ∧ label = .cancel id) := by
  cases Writes.stepped h with
  | called id op _ _ => exact Or.inl rfl
  | started id call core _ _ hcore => exact Or.inr ⟨_, hcore, Or.inr (Or.inl ⟨_, _, rfl⟩)⟩
  | returned id call outcome _ _ _ => exact Or.inl rfl
  | unwound id call _ _ _ => exact Or.inl rfl
  | unguarded id call error core _ _ hcore => exact Or.inr ⟨_, hcore, Or.inr (Or.inl ⟨_, _, rfl⟩)⟩
  | unstarted id call _ _ => exact Or.inl rfl
  | dropped id call core _ _ hcore => exact Or.inr ⟨_, hcore, Or.inr (Or.inr ⟨id, rfl, rfl⟩)⟩
  | core l core _ hcore => exact Or.inr ⟨l, hcore, Or.inl rfl⟩

/-- **A run of the binding is a run of the core.** -/
theorem Writes.core_runs (h : Runs (Writes.step owner) Refused ({} : Writes ι κ) w) :
    Runs Core.step (Guarded .stream) {} w.core := by
  refine h.map Writes.core fun w label w' hrefused hstep => ?_
  refine (Writes.core_step hstep).imp_right fun ⟨l, hcore, hl⟩ => ⟨l, ?_, hcore⟩
  rcases hl with rfl | ⟨id, op, rfl⟩ | ⟨id, rfl, -⟩
  · exact hrefused
  · rintro i choice call ⟨⟩
  · rintro i choice call ⟨⟩

/-- Without the condition too. -/
theorem Writes.core_runs_all {allowed : Writes ι κ → PyLabel ι κ → Prop}
    (h : Runs (Writes.step owner) allowed {} w) : Runs Core.step (fun _ _ => True) {} w.core :=
  h.map Writes.core fun _ _ _ _ hstep => (Writes.core_step hstep).imp_right
    fun ⟨l, hcore, _⟩ => ⟨l, trivial, hcore⟩

/-- **Nothing follows a torn prefix, under the condition.** -/
theorem nothing_follows (h : Runs (Writes.step owner) Refused ({} : Writes ι κ) w) :
    NothingFollows w := by
  obtain ⟨hwire, htorn⟩ := tornInv_of_runs (Writes.core_runs h)
  intro id call hcall _ hdropped hhanded _
  have heq := Core.handed_eq hcall
  obtain ⟨earlier, later, hgranted⟩ := List.append_of_mem (hwire.mem _ (heq ▸ hhanded))
  refine ⟨earlier, later, hgranted, ?_⟩
  have hlast := htorn.last
  rw [hgranted, List.pairwise_append] at hlast
  have hlater : later.flatMap w.core.handed = [] := by
    refine List.flatMap_eq_nil_iff.mpr fun j hj => ?_
    exact (List.pairwise_cons.mp hlast.2.1).1 j hj ⟨call, hcall, hhanded, Or.inl hdropped⟩
  rw [hwire.wire, hgranted, List.flatMap_append, List.flatMap_cons, hlater, heq, List.append_nil]

/-! ### A cancelled send and the next writer -/

/-- Two sends: the second waits for the gate while the first hands over one byte and is dropped. -/
def cancelled : List (PyLabel (Fin 2) Empty) :=
  let core (id : Fin 2) (n : ℕ) (choice : Choice) : List (PyLabel (Fin 2) Empty) :=
    List.replicate n (.core (.poll (.awaited id) choice))
  [.call 0 (.send [1, 2, 3]), .call 1 (.send [4, 5]), .poll 0] ++ core 0 4 .go ++ core 0 2 .gate
    ++ [.poll 1] ++ core 1 4 .go ++ core 1 1 .gate ++ core 0 5 .go ++ core 0 1 (.accept 1)
    ++ [.cancel 0]

/-- The second takes the gate before the guard of the first is dropped. -/
def overtaking : List (PyLabel (Fin 2) Empty) :=
  .core (.poll (.awaited 1) .gate) :: List.replicate 5 (.core (.poll (.awaited 1) .go))
    ++ [.core (.poll (.awaited 1) (.accept 2))]

/-- The spawned task closes the connection before the second takes the gate. -/
def closing : List (PyLabel (Fin 2) Empty) :=
  .poll 0 :: List.replicate 8 (.core (.poll (.spawned 0) .go))
    ++ [.core (.poll (.awaited 1) .gate), .core (.poll (.awaited 1) .go)]

def overtaken (owner : Owner) : Writes (Fin 2) Empty :=
  (runLabels (Writes.step owner) (fun _ _ => true) {} (cancelled ++ overtaking)).getD {}

/-- The condition, evaluated. -/
def Writes.refused (w : Writes (Fin 2) Empty) : PyLabel (Fin 2) Empty → Bool
  | .core (.poll id _) =>
    match (w.core.calls id).map Call.pc with
    | some .stream => !w.core.shared.stream ||
      [.awaited 0, .awaited 1, .spawned 0, .spawned 1].all fun i =>
        (w.core.calls i).all fun call => call.handed.isEmpty
    | _ => true
  | _ => true

theorem refused_of_eq_true (w : Writes (Fin 2) Empty) (label : PyLabel (Fin 2) Empty)
    (h : w.refused label = true) : Refused w label := by
  cases label with
  | core label =>
    rintro id choice call rfl hcall - hpc ⟨i, c, hc, hhanded, -⟩
    have hmem : i ∈ [.awaited 0, .awaited 1, .spawned 0, .spawned 1] := by
      rcases i with i | i | k
      · exact match i with
          | 0 => by decide
          | 1 => by decide
      · exact match i with
          | 0 => by decide
          | 1 => by decide
      · exact k.elim
    simp only [Writes.refused, hcall, Option.map_some, hpc, Barrier.pc, Bool.or_eq_true,
      List.all_eq_true] at h
    refine h.resolve_right fun hall => ?_
    have hempty := hall i hmem
    rw [hc, Option.all_some, List.isEmpty_iff] at hempty
    exact hhanded hempty
  | _ => trivial

/-- The second send is refused, since the task that the guard spawned came first. -/
def refusedSecond : Writes (Fin 2) Empty :=
  (runLabels (Writes.step .connection) Writes.refused {} (cancelled ++ closing)).getD {}

theorem runs_refusedSecond :
    Runs (Writes.step .connection) Refused ({} : Writes (Fin 2) Empty) refusedSecond :=
  runs_of_runLabels refused_of_eq_true
    (show runLabels _ Writes.refused {} (cancelled ++ closing) = some refusedSecond from rfl)

theorem nothing_follows_refusedSecond :
    (refusedSecond.core.calls (.awaited 0)).map Call.handed = some [1] ∧
      (refusedSecond.core.calls (.awaited 1)).map Call.outcome
        = some (some (.error (.msg closedText))) ∧ NothingFollows refusedSecond :=
  ⟨rfl, rfl, nothing_follows runs_refusedSecond⟩

/-- **Bytes follow a torn prefix**, on a connection and on a write half. -/
theorem bytes_follow :
    (¬ ∀ w : Writes (Fin 2) Empty, Runs (Writes.step .connection) (fun _ _ => True) {} w →
      NothingFollows w) ∧
    (¬ ∀ w : Writes (Fin 2) Empty, Runs (Writes.step .writeHalf) (fun _ _ => True) {} w →
      NothingFollows w) := by
  have key : ∀ owner, (overtaken owner).core.shared.writeGate.granted = [.awaited 0, .awaited 1] →
      (overtaken owner).core.shared.wire = [1, 4, 5] →
      (overtaken owner).core.calls (.awaited 0) = some ⟨.send [1, 2, 3], .dropped, 1⟩ →
      ¬NothingFollows (overtaken owner) := by
    intro owner hgranted hwire hcall h
    obtain ⟨earlier, later, hsplit, heq⟩ := h 0 _ hcall rfl rfl (by decide) (by decide)
    rw [hgranted] at hsplit
    rw [hwire] at heq
    obtain rfl : earlier = [] := by
      cases earlier with
      | nil => rfl
      | cons i earlier =>
        have hmem : (.awaited 0 : CoreCall (Fin 2) Empty) ∈ [CoreCall.awaited 1] := by
          rw [(List.cons.inj hsplit).2]
          exact List.mem_append_right _ List.mem_cons_self
        exact absurd hmem (by decide)
    simp [Call.handed, Op.buffer] at heq
  refine ⟨fun h => key .connection rfl rfl rfl (h _ ?_),
    fun h => key .writeHalf rfl rfl rfl (h _ ?_)⟩
  · exact runs_of_runLabels (fun _ _ _ => trivial)
      (show runLabels _ (fun _ _ => true) {} (cancelled ++ overtaking)
        = some (overtaken .connection) from rfl)
  · exact runs_of_runLabels (fun _ _ _ => trivial)
      (show runLabels _ (fun _ _ => true) {} (cancelled ++ overtaking)
        = some (overtaken .writeHalf) from rfl)

end Python

end Taunicorn
