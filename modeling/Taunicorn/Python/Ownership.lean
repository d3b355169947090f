import Taunicorn.Python.Writes

/-!
# Who owns the raw connection

`PyConnection` keeps a slot: the raw connection behind an `Arc`, the token of an upgrade that has
taken it, the secure session, or nothing after a split. The methods of all aliases go through it.

A raw method clones the `Arc` into its async block when it is called, and the block clones it once
more into its guard when it is polled for the first time. The guard of a call that has failed or was
dropped hands its clone to the task that it spawns. `take_plain` needs the connection itself, and
gets it from `Arc::try_unwrap` only where no clone is left.

## Granularity

One step is one method call up to its return, one poll of an async block up to its next await point
or one drop, and one step of the connection core by a call that is polled. Behind the awaited
operation the guard and the clone of the block are dropped in steps of their own, so that
`take_plain` may run between them. The slot's lock makes each access to the slot one step.

A call of `close` that finds a session cancels its token, and its block closes the connection that
the session owns: it has no guard and no clone of the `Arc`.

## What is absent

The methods that only read or set flags: they hold their clone within one call, behind the
interpreter's lock. The other calls of the new owner of the connection, the halves, the handshake or
the session, are calls of the core that do not go through the wrapper.

## Main results

* `Wrapper.stepped` — the steps of the wrapper
* `ownInv_of_runs` — every clone that anybody holds is counted
* `exclusive_ownership` — who can own the connection, in every run
-/

namespace Taunicorn

namespace Python

open Transport

/-! ### The wrapper -/

/-- `ConnectionSlot`. A token and a session are named by their upgrade. -/
inductive Slot (ι : Type) where
  | plain
  | upgrading (id : ι)
  | secure (id : ι)
  | consumed
  deriving DecidableEq, Repr

/-- Who holds a clone of the `Arc`, besides the slot. -/
inductive Holder (ι : Type) where
  | block (id : ι)
  | guard (id : ι)
  | task (id : ι)
  deriving DecidableEq, Repr

/-- Where the async block of a raw method stands. -/
inductive BlockPC where
  /-- The method has raised, and there is no block. -/
  | raised (error : Error)
  /-- Not polled yet: there is no guard. -/
  | created
  | running
  /-- The operation has ended, and the guard is told so or dropped. -/
  | guard (completed : Bool)
  /-- The clone of the block is to be dropped. -/
  | leaving
  | ended
  deriving DecidableEq, Repr

/-- Whose connection the block has to do with: the slot's, or that of a session. -/
inductive ConnectionHandle where
  | plain
  | secure
  deriving DecidableEq, Repr

structure Block where
  op : Op
  pc : BlockPC := .created
  handle : ConnectionHandle := .plain

/-- Where the async block of `establish` stands. -/
inductive UpgradePC where
  /-- It owns the raw connection, or the handshake does. -/
  | handshake
  /-- The handshake has made a session. -/
  | made
  /-- The session is in the slot. -/
  | finished
  /-- The guard of the token is disarmed. -/
  | returned
  /-- The guard of the token is to be dropped. -/
  | failing
  | ended
  deriving DecidableEq, Repr

/-- One call of `establish`, with its token. -/
structure Upgrade where
  pc : UpgradePC := .handshake
  cancelled : Bool := false
  deriving DecidableEq, Repr

/-- `PyConnection`, the async blocks that its methods have made, and the connection itself. -/
structure Wrapper (ι : Type) where
  slot : Slot ι := .plain
  /-- The clones of the `Arc` besides the slot's: `Arc::strong_count` less one. -/
  arcs : List (Holder ι) := []
  core : Core (CoreCall ι ι) := {}
  blocks : ι → Option Block := fun _ => none
  upgrades : ι → Option Upgrade := fun _ => none

/-- The methods with a guard. -/
def isGuarded : Op → Bool
  | .writeOnce _ => true
  | .send _ => true
  | .sendTimeout _ _ => true
  | .shutdownWrite => true
  | .close => true
  | _ => false

/-- The raw methods. -/
def isRaw : Op → Bool
  | .close => false
  | .pause => false
  | .resume => false
  | _ => true

/-- Who moves. -/
inductive OwnLabel (ι : Type) where
  /-- A raw method is called. -/
  | call (id : ι) (op : Op)
  | close (id : ι)
  | poll (id : ι)
  | cancel (id : ι)
  /-- A spawned task ends. -/
  | task (id : ι)
  | intoSplit
  | establish (id : ι)
  /-- Poll the block of `establish`; the answer is that of the handshake. -/
  | upgrade (id : ι) (answer : Bool)
  | dropUpgrade (id : ι)
  /-- The session's methods, its drop, or a cancelled Future cancel the token. -/
  | cancelToken (id : ι)
  | core (label : Label (CoreCall ι ι))

variable {ι : Type} [DecidableEq ι]

/-- The token of an upgrade is cancelled. -/
def Wrapper.cancelled (w : Wrapper ι) (id : ι) : Bool := (w.upgrades id).any Upgrade.cancelled

def Wrapper.cancelToken (w : Wrapper ι) (id : ι) : Wrapper ι :=
  { w with
    upgrades := Function.update w.upgrades id
      ((w.upgrades id).map fun u => { u with cancelled := true }) }

theorem Wrapper.cancelToken_self {w : Wrapper ι} {id : ι} {u : Upgrade}
    (h : w.upgrades id = some u) :
    (w.cancelToken id).upgrades id = some { u with cancelled := true } :=
  (Function.update_self ..).trans (by rw [h]; rfl)

theorem Wrapper.cancelToken_of_ne {w : Wrapper ι} {id i : ι} (h : i ≠ id) :
    (w.cancelToken id).upgrades i = w.upgrades i :=
  Function.update_of_ne h ..

def Wrapper.setBlock (w : Wrapper ι) (id : ι) (block : Block) : Wrapper ι :=
  { w with blocks := Function.update w.blocks id (some block) }

def Wrapper.setUpgrade (w : Wrapper ι) (id : ι) (u : Upgrade) : Wrapper ι :=
  { w with upgrades := Function.update w.upgrades id (some u) }

def consumedText : String := "Connection was consumed by into_split()"

/-- `connection` and `plain_connection`: the error that a raw method raises, if it does. -/
def Wrapper.plainConnection (w : Wrapper ι) : Except Error Unit :=
  match w.slot with
  | .plain => .ok ()
  | .secure _ => .error (.msg ("raw I/O is disabled after a secure upgrade; "
      ++ "use SecureConnection.send/receive/close"))
  | .upgrading id =>
    if w.cancelled id then
      .error (.msg "secure handshake failed or was cancelled; connect again")
    else .error (.msg "Connection is owned by an in-progress secure handshake")
  | .consumed => .error (.msg consumedText)

def Wrapper.takePlain (w : Wrapper ι) (next : Slot ι) (operation : String) :
    Except Error (Wrapper ι) :=
  match w.slot with
  | .plain =>
    if w.arcs.isEmpty then .ok { w with slot := next }
    else .error (.msg
      s!"cannot {operation} Connection while an async operation is still pending")
  | _ => .error (.msg s!"cannot {operation} Connection: already split, upgrading, or secured")

def Wrapper.takeForSplit (w : Wrapper ι) : Except Error (Wrapper ι) :=
  w.takePlain .consumed "split"

def Wrapper.beginSecure (w : Wrapper ι) (token : ι) : Except Error (Wrapper ι) :=
  w.takePlain (.upgrading token) "secure-upgrade"

/-- The token that is asked is the slot's. -/
def Wrapper.finishSecure (w : Wrapper ι) (session : ι) : Except Error (Wrapper ι) :=
  match w.slot with
  | .upgrading token =>
    if w.cancelled token then
      .error (.msg "secure upgrade was cancelled or is no longer active")
    else .ok { w with slot := .secure session }
  | _ => .error (.msg "secure upgrade was cancelled or is no longer active")

/-! ### One step -/

/-- A method that starts a raw operation. -/
def Wrapper.start (w : Wrapper ι) (id : ι) (op : Op) : Wrapper ι :=
  match w.plainConnection with
  | .ok () => { w.setBlock id { op := op } with arcs := .block id :: w.arcs }
  | .error e => w.setBlock id { op := op, pc := .raised e }

/-- `close` cancels the upgrade, or the session, whose connection its block closes then. -/
def Wrapper.close (w : Wrapper ι) (id : ι) : Wrapper ι :=
  match w.slot with
  | .plain => { w.setBlock id { op := .close } with arcs := .block id :: w.arcs }
  | .upgrading token => (w.cancelToken token).setBlock id { op := .close, pc := .ended }
  | .secure token => (w.cancelToken token).setBlock id { op := .close, handle := .secure }
  | .consumed => w.setBlock id { op := .close, pc := .raised (.msg consumedText) }

/-- One step of the async block of a raw method. -/
def Wrapper.poll (w : Wrapper ι) (id : ι) (b : Block) : Option (Wrapper ι) :=
  match b.pc with
  | .created => (w.core.step (.call (.awaited id) b.op)).map fun core =>
    { w.setBlock id { b with pc := .running } with
      core := core
      arcs := if isGuarded b.op then .guard id :: w.arcs else w.arcs }
  | .running =>
    match (w.core.calls (.awaited id)).map Call.pc with
    | some (.done (.ok _)) => some (w.setBlock id { b with pc := .guard true })
    | some (.done (.error _)) => some (w.setBlock id { b with pc := .guard false })
    | some .panicked => some (w.setBlock id { b with pc := .guard false })
    | _ => none
  | .guard completed =>
    if isGuarded b.op then
      if completed then
        some { w.setBlock id { b with pc := .leaving } with arcs := w.arcs.erase (.guard id) }
      else (w.core.step (.call (.spawned id) .close)).map fun core =>
        { w.setBlock id { b with pc := .leaving } with
          core := core
          arcs := .task id :: w.arcs.erase (.guard id) }
    else some (w.setBlock id { b with pc := .leaving })
  | .leaving =>
    some { w.setBlock id { b with pc := .ended } with arcs := w.arcs.erase (.block id) }
  | .ended => none
  | .raised _ => none

/-- Drop the async block of a raw method. -/
def Wrapper.drop (w : Wrapper ι) (id : ι) (b : Block) : Option (Wrapper ι) :=
  match b.pc with
  | .created => some (w.setBlock id { b with pc := .leaving })
  | .running => (w.core.step (.drop (.awaited id))).map fun core =>
    { w.setBlock id { b with pc := .guard false } with core := core }
  | _ => none

/-- One step of the async block that awaits `session.inner.close()`. -/
def Wrapper.pollSecure (w : Wrapper ι) (id : ι) (b : Block) : Option (Wrapper ι) :=
  match b.pc with
  | .created => (w.core.step (.call (.awaited id) b.op)).map fun core =>
    { w.setBlock id { b with pc := .running } with core := core }
  | .running =>
    match (w.core.calls (.awaited id)).map Call.pc with
    | some (.done _) => some (w.setBlock id { b with pc := .ended })
    | _ => none
  | _ => none

/-- Drop that block. -/
def Wrapper.dropSecure (w : Wrapper ι) (id : ι) (b : Block) : Option (Wrapper ι) :=
  match b.pc with
  | .created => some (w.setBlock id { b with pc := .ended })
  | .running => (w.core.step (.drop (.awaited id))).map fun core =>
    { w.setBlock id { b with pc := .ended } with core := core }
  | _ => none

/-- One step of the async block of `establish`. -/
def Wrapper.pollUpgrade (w : Wrapper ι) (id : ι) (u : Upgrade) (answer : Bool) :
    Option (Wrapper ι) :=
  match u.pc with
  | .handshake =>
    some (w.setUpgrade id { u with pc := if !u.cancelled && answer then .made else .failing })
  | .made =>
    match w.finishSecure id with
    | .ok w' => some (w'.setUpgrade id { u with pc := .finished })
    | .error _ => some (w.setUpgrade id { u with pc := .failing })
  | .finished => some (w.setUpgrade id { u with pc := .returned })
  | .failing => some (w.setUpgrade id { pc := .ended, cancelled := true })
  | .returned => none
  | .ended => none

/-- Who may step the core: a polled block, a spawned task, and the new owner. -/
def Wrapper.permits (w : Wrapper ι) : Label (CoreCall ι ι) → Bool
  | .poll (.awaited id) _ => (w.blocks id).map Block.pc = some .running
  | .poll (.spawned _) _ => true
  | .call (.other _) _ => w.slot ≠ .plain
  | .poll (.other _) _ => w.slot ≠ .plain
  | .drop (.other _) => w.slot ≠ .plain
  | _ => false

/-- **One step of the wrapper.** -/
def Wrapper.step (w : Wrapper ι) : OwnLabel ι → Option (Wrapper ι)
  | .call id op =>
    match w.blocks id with
    | none => if isRaw op then some (w.start id op) else none
    | some _ => none
  | .close id =>
    match w.blocks id with
    | none => some (w.close id)
    | some _ => none
  | .poll id => (w.blocks id).bind fun b =>
    match b.handle with
    | .plain => w.poll id b
    | .secure => w.pollSecure id b
  | .cancel id => (w.blocks id).bind fun b =>
    match b.handle with
    | .plain => w.drop id b
    | .secure => w.dropSecure id b
  | .task id =>
    match (w.core.calls (.spawned id)).map Call.pc with
    | some (.done _) => some { w with arcs := w.arcs.erase (.task id) }
    | _ => none
  | .intoSplit =>
    match w.takeForSplit with
    | .ok w' => some w'
    | .error _ => some w
  | .establish id =>
    match w.upgrades id with
    | none =>
      match w.beginSecure id with
      | .ok w' => some (w'.setUpgrade id {})
      | .error _ => some w
    | some _ => none
  | .upgrade id answer => (w.upgrades id).bind fun u => w.pollUpgrade id u answer
  | .dropUpgrade id =>
    match w.upgrades id with
    | some u => if u.pc = .handshake then some (w.setUpgrade id { u with pc := .failing }) else none
    | none => none
  | .cancelToken id =>
    match w.upgrades id with
    | some _ => some (w.cancelToken id)
    | none => none
  | .core label =>
    if w.permits label then (w.core.step label).map fun core => { w with core := core } else none

/-! ### The invariant -/

/-- The block holds its clone. -/
def BlockPC.Holds : BlockPC → Prop
  | .raised _ => False
  | .ended => False
  | _ => True

def Block.Holds (b : Block) : Prop := b.handle = .plain ∧ b.pc.Holds

/-- **The invariant of ownership.** Every clone that is held is counted, and an upgrade that has
taken the connection is the one in the slot. A block without a clone closes the connection of the
session in the slot. -/
structure OwnInv (w : Wrapper ι) : Prop where
  block : ∀ id b, w.blocks id = some b → b.Holds → .block id ∈ w.arcs
  secured : ∀ id b, w.blocks id = some b → b.handle = .secure →
    b.op = .close ∧ ∃ token, w.slot = .secure token
  awaited : ∀ id t, w.core.calls (.awaited id) = some t → ∃ b, w.blocks id = some b ∧ t.op = b.op
  task : ∀ id t, w.core.calls (.spawned id) = some t → t.pc.Live → .task id ∈ w.arcs
  taken : w.slot ≠ .plain → w.arcs = []
  named : ∀ id, w.slot = .upgrading id ∨ w.slot = .secure id → w.upgrades id ≠ none
  upgrade : ∀ id u, w.upgrades id = some u →
    (w.slot = .upgrading id ∧ u.pc ≠ .finished ∧ u.pc ≠ .returned) ∨
      (w.slot = .secure id ∧ (u.pc = .finished ∨ u.pc = .returned))
  ended : ∀ id u, w.upgrades id = some u → u.pc = .ended → u.cancelled = true

omit [DecidableEq ι] in
theorem ownInv_init : OwnInv ({} : Wrapper ι) where
  block _ _ h := absurd h nofun
  secured _ _ h := absurd h nofun
  awaited _ _ h := absurd h nofun
  task _ _ h := absurd h nofun
  taken h := absurd rfl h
  named _ h := absurd h (by simp)
  upgrade _ _ h := absurd h nofun
  ended _ _ h := absurd h nofun

variable {w w' : Wrapper ι} {id : ι} {b : Block} {u : Upgrade} {label : OwnLabel ι}

/-- What a step of the block `id`, whose operation is `op`, leaves of the calls of the core. -/
structure CoreKept (w : Wrapper ι) (id : ι) (op : Op) (arcs : List (Holder ι))
    (core : Core (CoreCall ι ι)) : Prop where
  task : ∀ i t, core.calls (.spawned i) = some t → t.pc.Live →
    .task i ∈ arcs ∨ ∃ t, w.core.calls (.spawned i) = some t ∧ t.pc.Live
  awaited : ∀ i t, core.calls (.awaited i) = some t →
    (i = id ∧ t.op = op) ∨ ∃ t', w.core.calls (.awaited i) = some t' ∧ t.op = t'.op

omit [DecidableEq ι] in
theorem coreKept_self {op : Op} {arcs : List (Holder ι)} : CoreKept w id op arcs w.core where
  task _ t ht hlive := Or.inr ⟨t, ht, hlive⟩
  awaited _ t ht := Or.inr ⟨t, ht, rfl⟩

/-- A step of the core makes no task, unless it is the call of one. -/
theorem task_of_step {l : Label (CoreCall ι ι)} {core core' : Core (CoreCall ι ι)}
    (h : core.step l = some core') (hl : ∀ i op, l ≠ .call (.spawned i) op) (i : ι) (t : Call)
    (ht : core'.calls (.spawned i) = some t) (hlive : t.pc.Live) :
    ∃ t, core.calls (.spawned i) = some t ∧ t.pc.Live := by
  rcases Core.call_of_step h ht with ⟨hcall, -⟩ | ⟨t', ht', -, hlive', -⟩
  · exact absurd hcall (hl i _)
  · exact ⟨t', ht', hlive' hlive⟩

/-- The core awaits nothing new, unless the step is that call. -/
theorem awaited_of_step {l : Label (CoreCall ι ι)} {core core' : Core (CoreCall ι ι)} {op : Op}
    (h : core.step l = some core') (hl : ∀ i op', l = .call (.awaited i) op' → i = id ∧ op' = op)
    (i : ι) (t : Call) (ht : core'.calls (.awaited i) = some t) :
    (i = id ∧ t.op = op) ∨ ∃ t', core.calls (.awaited i) = some t' ∧ t.op = t'.op := by
  rcases Core.call_of_step h ht with ⟨hcall, -⟩ | ⟨t', ht', hop, -⟩
  · exact Or.inl (hl i _ hcall)
  · exact Or.inr ⟨t', ht', hop⟩

theorem coreKept_of_step {l : Label (CoreCall ι ι)} {core : Core (CoreCall ι ι)} {op : Op}
    {arcs : List (Holder ι)} (h : w.core.step l = some core)
    (hl : ∀ i op', l ≠ .call (.spawned i) op')
    (hl' : ∀ i op', l = .call (.awaited i) op' → i = id ∧ op' = op) :
    CoreKept w id op arcs core where
  task i t ht hlive := Or.inr (task_of_step h hl i t ht hlive)
  awaited := awaited_of_step h hl'

/-- A step of one block, with what it does to the clones and to the core. -/
theorem OwnInv.setBlock (hinv : OwnInv w) {arcs : List (Holder ι)} {core : Core (CoreCall ι ι)}
    (hop : ∀ c, w.blocks id = some c → c.op = b.op)
    (hsecured : b.handle = .secure → b.op = .close ∧ ∃ token, w.slot = .secure token)
    (hself : b.Holds → .block id ∈ arcs)
    (harcs : ∀ h, h ∈ w.arcs → h ≠ .block id → h ≠ .guard id → h ∈ arcs)
    (hcore : CoreKept w id b.op arcs core) (htaken : w.slot ≠ .plain → arcs = []) :
    OwnInv { w.setBlock id b with arcs := arcs, core := core } where
  block i c hc hholds := by
    change Function.update w.blocks id (some b) i = some c at hc
    by_cases hi : i = id
    · subst hi
      rw [Function.update_self, Option.some.injEq] at hc
      exact hself (hc ▸ hholds)
    · rw [Function.update_of_ne hi] at hc
      exact harcs _ (hinv.block i c hc hholds) (fun h => hi (Holder.block.inj h)) nofun
  secured i c hc := by
    change Function.update w.blocks id (some b) i = some c at hc
    by_cases hi : i = id
    · subst hi
      rw [Function.update_self, Option.some.injEq] at hc
      exact hc ▸ hsecured
    · rw [Function.update_of_ne hi] at hc
      exact hinv.secured i c hc
  awaited i t ht := by
    change ∃ c, Function.update w.blocks id (some b) i = some c ∧ t.op = c.op
    by_cases hi : i = id
    · subst hi
      refine ⟨b, Function.update_self .., ?_⟩
      rcases hcore.awaited i t ht with ⟨-, hop⟩ | ⟨t', ht', hop'⟩
      · exact hop
      · obtain ⟨c, hc, hop''⟩ := hinv.awaited i t' ht'
        rw [hop', hop'', hop c hc]
    · rw [Function.update_of_ne hi]
      obtain ⟨t', ht', hop'⟩ := (hcore.awaited i t ht).resolve_left fun h => hi h.1
      obtain ⟨c, hc, hop''⟩ := hinv.awaited i t' ht'
      exact ⟨c, hc, hop'.trans hop''⟩
  task i t ht hlive := by
    rcases hcore.task i t ht hlive with hmem | ⟨t, ht, hlive⟩
    · exact hmem
    · exact harcs _ (hinv.task i t ht hlive) nofun nofun
  taken := htaken
  named := hinv.named
  upgrade := hinv.upgrade
  ended := hinv.ended

/-- A block that is there moves on. -/
theorem OwnInv.setPC (hinv : OwnInv w) (hb : w.blocks id = some b) {pc : BlockPC}
    {arcs : List (Holder ι)} {core : Core (CoreCall ι ι)}
    (hself : b.handle = .plain → pc.Holds → .block id ∈ arcs)
    (harcs : ∀ h, h ∈ w.arcs → h ≠ .block id → h ≠ .guard id → h ∈ arcs)
    (hcore : CoreKept w id b.op arcs core) (htaken : w.slot ≠ .plain → arcs = []) :
    OwnInv { w.setBlock id { b with pc := pc } with arcs := arcs, core := core } := by
  refine hinv.setBlock (fun c hc => ?_) (hinv.secured id b hb) (fun h => hself h.1 h.2) harcs hcore
    htaken
  rw [Option.some.inj (hc.symm.trans hb)]

/-- A block that holds its clone holds the connection in the slot. -/
theorem OwnInv.plain_of_holds (hinv : OwnInv w) (hb : w.blocks id = some b)
    (hholds : b.Holds) : w.slot = .plain := by
  by_contra hne
  exact absurd (hinv.taken hne ▸ hinv.block id b hb hholds) List.not_mem_nil

theorem OwnInv.start (hinv : OwnInv w) (hnone : w.blocks id = none) {op : Op} :
    OwnInv (w.start id op) := by
  have hfresh : ∀ c, w.blocks id = some c → c.op = op := fun c hc =>
    absurd (hc.symm.trans hnone) (Option.some_ne_none c)
  unfold Wrapper.start
  split
  · next hok =>
    have hplain : w.slot = .plain := by
      unfold Wrapper.plainConnection at hok
      split at hok
      · assumption
      · exact absurd hok nofun
      · split at hok <;> exact absurd hok nofun
      · exact absurd hok nofun
    exact hinv.setBlock hfresh nofun (fun _ => List.mem_cons_self)
      (fun h hmem _ _ => List.mem_cons_of_mem _ hmem) coreKept_self
      (fun hne => absurd hplain hne)
  · exact hinv.setBlock hfresh nofun (fun h => h.2.elim) (fun h hmem _ _ => hmem) coreKept_self
      hinv.taken

/-- Cancelling a token moves nothing else. -/
theorem OwnInv.cancelToken (hinv : OwnInv w) : OwnInv (w.cancelToken id) where
  block := hinv.block
  secured := hinv.secured
  awaited := hinv.awaited
  task := hinv.task
  taken := hinv.taken
  named i h := by
    by_cases hi : i = id
    · subst hi
      obtain ⟨u, hu⟩ := Option.ne_none_iff_exists'.mp (hinv.named i h)
      rw [Wrapper.cancelToken_self hu]
      exact Option.some_ne_none _
    · rw [Wrapper.cancelToken_of_ne hi]
      exact hinv.named i h
  upgrade i u hu := by
    change Function.update w.upgrades id _ i = some u at hu
    by_cases hi : i = id
    · subst hi
      rw [Function.update_self] at hu
      obtain ⟨v, hv, rfl⟩ := Option.map_eq_some_iff.mp hu
      exact hinv.upgrade i v hv
    · rw [Function.update_of_ne hi] at hu
      exact hinv.upgrade i u hu
  ended i u hu hpc := by
    change Function.update w.upgrades id _ i = some u at hu
    by_cases hi : i = id
    · subst hi
      rw [Function.update_self] at hu
      obtain ⟨v, -, rfl⟩ := Option.map_eq_some_iff.mp hu
      rfl
    · rw [Function.update_of_ne hi] at hu
      exact hinv.ended i u hu hpc

theorem OwnInv.close (hinv : OwnInv w) (hnone : w.blocks id = none) : OwnInv (w.close id) := by
  have hfresh : ∀ c, w.blocks id = some c → c.op = .close := fun c hc =>
    absurd (hc.symm.trans hnone) (Option.some_ne_none c)
  unfold Wrapper.close
  split
  · next hplain =>
    exact hinv.setBlock hfresh nofun (fun _ => List.mem_cons_self)
      (fun h hmem _ _ => List.mem_cons_of_mem _ hmem) coreKept_self
      (fun hne => absurd hplain hne)
  · exact hinv.cancelToken.setBlock hfresh nofun (fun h => h.2.elim) (fun h hmem _ _ => hmem)
      coreKept_self hinv.taken
  · next token hslot =>
    exact hinv.cancelToken.setBlock hfresh (fun _ => ⟨rfl, token, hslot⟩)
      (fun h => absurd h.1 nofun) (fun h hmem _ _ => hmem) coreKept_self hinv.taken
  · exact hinv.setBlock hfresh nofun (fun h => h.2.elim) (fun h hmem _ _ => hmem) coreKept_self
      hinv.taken

theorem OwnInv.poll (hinv : OwnInv w) (hb : w.blocks id = some b) (hhandle : b.handle = .plain)
    (h : w.poll id b = some w') : OwnInv w' := by
  have hmem : b.pc.Holds → .block id ∈ w.arcs := fun h => hinv.block id b hb ⟨hhandle, h⟩
  have htaken : ∀ {arcs : List (Holder ι)}, b.pc.Holds → w.slot ≠ .plain → arcs = [] :=
    fun hholds hne => absurd (hinv.plain_of_holds hb ⟨hhandle, hholds⟩) hne
  unfold Wrapper.poll at h
  split at h
  · next hpc =>
    obtain ⟨core, hcore, rfl⟩ := Option.map_eq_some_iff.mp h
    refine hinv.setPC hb (fun _ _ => ?_) (fun h hold _ _ => ?_)
      (coreKept_of_step hcore nofun fun i op' hl => ?_) (htaken (hpc ▸ trivial))
    · split
      · exact List.mem_cons_of_mem _ (hmem (hpc ▸ trivial))
      · exact hmem (hpc ▸ trivial)
    · split
      · exact List.mem_cons_of_mem _ hold
      · exact hold
    · obtain ⟨hi, hop⟩ := Label.call.inj hl
      exact ⟨(CoreCall.awaited.inj hi).symm, hop.symm⟩
  · next hpc =>
    have hkept : ∀ completed, OwnInv (w.setBlock id { b with pc := .guard completed }) := fun _ =>
      hinv.setPC hb (fun _ _ => hmem (hpc ▸ trivial)) (fun h hold _ _ => hold) coreKept_self
        hinv.taken
    split at h
    · cases h
      exact hkept true
    · cases h
      exact hkept false
    · cases h
      exact hkept false
    · exact absurd h nofun
  · next completed hpc =>
    have hblock := hmem (hpc ▸ trivial)
    have hkept : .block id ∈ w.arcs.erase (.guard id) :=
      (List.mem_erase_of_ne (show Holder.block id ≠ .guard id from nofun)).mpr hblock
    split_ifs at h with hguarded hcompleted
    · cases h
      exact hinv.setPC hb (fun _ _ => hkept)
        (fun h hold _ hne => (List.mem_erase_of_ne hne).mpr hold) coreKept_self
        (htaken (hpc ▸ trivial))
    · -- the guard hands its clone to the task
      obtain ⟨core, hcore, rfl⟩ := Option.map_eq_some_iff.mp h
      refine hinv.setPC hb (fun _ _ => List.mem_cons_of_mem _ hkept)
        (fun h hold _ hne => List.mem_cons_of_mem _ ((List.mem_erase_of_ne hne).mpr hold))
        ⟨fun i t ht hlive => ?_, awaited_of_step hcore nofun⟩ (htaken (hpc ▸ trivial))
      rcases Core.call_of_step hcore ht with ⟨hcall, -⟩ | ⟨t', ht', -, hlive', -⟩
      · obtain rfl := CoreCall.spawned.inj (Label.call.inj hcall).1
        exact Or.inl List.mem_cons_self
      · exact Or.inr ⟨t', ht', hlive' hlive⟩
    · cases h
      exact hinv.setPC hb (fun _ _ => hblock) (fun h hold _ _ => hold) coreKept_self hinv.taken
  · next hpc =>
    cases h
    exact hinv.setPC hb (fun _ h => h.elim)
      (fun h hold hne _ => (List.mem_erase_of_ne hne).mpr hold) coreKept_self
      (htaken (hpc ▸ trivial))
  · exact absurd h nofun
  · exact absurd h nofun

theorem OwnInv.drop (hinv : OwnInv w) (hb : w.blocks id = some b) (hhandle : b.handle = .plain)
    (h : w.drop id b = some w') : OwnInv w' := by
  unfold Wrapper.drop at h
  split at h
  · next hpc =>
    cases h
    exact hinv.setPC hb (fun _ _ => hinv.block id b hb ⟨hhandle, hpc ▸ trivial⟩)
      (fun h hold _ _ => hold) coreKept_self hinv.taken
  · next hpc =>
    obtain ⟨core, hcore, rfl⟩ := Option.map_eq_some_iff.mp h
    exact hinv.setPC hb (fun _ _ => hinv.block id b hb ⟨hhandle, hpc ▸ trivial⟩)
      (fun h hold _ _ => hold) (coreKept_of_step hcore nofun nofun) hinv.taken
  · exact absurd h nofun

/-- The block that closes the connection of a session has no clone to count. -/
theorem OwnInv.setSecure (hinv : OwnInv w) (hb : w.blocks id = some b)
    (hhandle : b.handle = .secure) {pc : BlockPC} {core : Core (CoreCall ι ι)}
    (hcore : CoreKept w id b.op w.arcs core) :
    OwnInv { w.setBlock id { b with pc := pc } with core := core } :=
  hinv.setPC hb (fun h => absurd (h.symm.trans hhandle) nofun) (fun _ hold _ _ => hold) hcore
    hinv.taken

theorem OwnInv.pollSecure (hinv : OwnInv w) (hb : w.blocks id = some b)
    (hhandle : b.handle = .secure) (h : w.pollSecure id b = some w') : OwnInv w' := by
  unfold Wrapper.pollSecure at h
  split at h
  · obtain ⟨core, hcore, rfl⟩ := Option.map_eq_some_iff.mp h
    refine hinv.setSecure hb hhandle (coreKept_of_step hcore nofun fun i op' hl => ?_)
    obtain ⟨hi, hop⟩ := Label.call.inj hl
    exact ⟨(CoreCall.awaited.inj hi).symm, hop.symm⟩
  · split at h
    · cases h
      exact hinv.setSecure hb hhandle coreKept_self
    · exact absurd h nofun
  · exact absurd h nofun

theorem OwnInv.dropSecure (hinv : OwnInv w) (hb : w.blocks id = some b)
    (hhandle : b.handle = .secure) (h : w.dropSecure id b = some w') : OwnInv w' := by
  unfold Wrapper.dropSecure at h
  split at h
  · cases h
    exact hinv.setSecure hb hhandle coreKept_self
  · obtain ⟨core, hcore, rfl⟩ := Option.map_eq_some_iff.mp h
    exact hinv.setSecure hb hhandle (coreKept_of_step hcore nofun nofun)
  · exact absurd h nofun

omit [DecidableEq ι] in
/-- Only one upgrade has taken the connection. -/
theorem OwnInv.upgrade_unique (hinv : OwnInv w) {i : ι} {v : Upgrade}
    (hu : w.upgrades id = some u) (hv : w.upgrades i = some v) : i = id := by
  rcases hinv.upgrade id u hu with ⟨hslot, -⟩ | ⟨hslot, -⟩ <;>
    rcases hinv.upgrade i v hv with ⟨hslot', -⟩ | ⟨hslot', -⟩
  · exact Slot.upgrading.inj (hslot'.symm.trans hslot)
  · exact absurd (hslot'.symm.trans hslot) nofun
  · exact absurd (hslot'.symm.trans hslot) nofun
  · exact Slot.secure.inj (hslot'.symm.trans hslot)

/-- A step of the upgrade in the slot. -/
theorem OwnInv.setUpgrade (hinv : OwnInv w) (hother : ∀ i, i ≠ id → w.upgrades i = none)
    (harcs : w.arcs = []) {slot : Slot ι}
    (hu : (slot = .upgrading id ∧ u.pc ≠ .finished ∧ u.pc ≠ .returned) ∨
      (slot = .secure id ∧ (u.pc = .finished ∨ u.pc = .returned)))
    (hsecure : ∀ token, w.slot = .secure token → ∃ token, slot = .secure token)
    (hended : u.pc = .ended → u.cancelled = true) :
    OwnInv { w.setUpgrade id u with slot := slot } := by
  have hself : ∀ i v, Function.update w.upgrades id (some u) i = some v → i = id ∧ v = u := by
    intro i v hv
    by_cases hi : i = id
    · subst hi
      rw [Function.update_self] at hv
      exact ⟨rfl, (Option.some.inj hv).symm⟩
    · rw [Function.update_of_ne hi, hother i hi] at hv
      exact absurd hv nofun
  refine ⟨hinv.block, fun i b hb hhandle => ?_, hinv.awaited, hinv.task, fun _ => harcs,
    fun i hi => ?_, fun i v hv => ?_, fun i v hv hpc => ?_⟩
  · obtain ⟨hop, token, hslot⟩ := hinv.secured i b hb hhandle
    exact ⟨hop, hsecure token hslot⟩
  · change Function.update w.upgrades id (some u) i ≠ none
    obtain rfl : i = id := by
      rcases hu with ⟨rfl, -⟩ | ⟨rfl, -⟩ <;> simpa [eq_comm] using hi
    rw [Function.update_self]
    exact Option.some_ne_none u
  · obtain ⟨rfl, rfl⟩ := hself i v hv
    exact hu
  · obtain ⟨rfl, rfl⟩ := hself i v hv
    exact hended hpc

omit [DecidableEq ι] in
/-- **When the connection is taken**: it is in the slot, and no clone is left. -/
theorem takePlain_eq_ok {next : Slot ι} {operation : String} :
    w.takePlain next operation = .ok w' ↔
      w.slot = .plain ∧ w.arcs = [] ∧ w' = { w with slot := next } := by
  unfold Wrapper.takePlain
  split
  · next hplain =>
    split_ifs with hempty
    · rw [List.isEmpty_iff] at hempty
      simp [hplain, hempty, eq_comm]
    · rw [List.isEmpty_iff] at hempty
      simp [hempty]
  · next hne => exact ⟨nofun, fun h => absurd h.1 hne⟩

omit [DecidableEq ι] in
/-- **When a session is put into the slot**: an upgrade is there, and its token is not cancelled. -/
theorem finishSecure_eq_ok {session : ι} : w.finishSecure session = .ok w' ↔
    ∃ token, w.slot = .upgrading token ∧ w.cancelled token = false ∧
      w' = { w with slot := .secure session } := by
  unfold Wrapper.finishSecure
  split
  · next token hslot =>
    split_ifs with hcancelled
    · refine ⟨nofun, ?_⟩
      rintro ⟨token', hslot', hclear, -⟩
      obtain rfl := Slot.upgrading.inj (hslot.symm.trans hslot')
      exact absurd (hcancelled.symm.trans hclear) nofun
    · refine ⟨fun h => ⟨token, hslot, by simpa using hcancelled, (Except.ok.inj h).symm⟩, ?_⟩
      rintro ⟨-, -, -, rfl⟩
      rfl
  · next hne =>
    refine ⟨nofun, ?_⟩
    rintro ⟨token, hslot, -⟩
    exact absurd hslot (hne token)

theorem OwnInv.pollUpgrade (hinv : OwnInv w) (hu : w.upgrades id = some u) {answer : Bool}
    (h : w.pollUpgrade id u answer = some w') : OwnInv w' := by
  have hother : ∀ i, i ≠ id → w.upgrades i = none := by
    intro i hi
    by_contra hne
    obtain ⟨v, hv⟩ := Option.ne_none_iff_exists'.mp hne
    exact hi (hinv.upgrade_unique hu hv)
  have hslot := hinv.upgrade id u hu
  have harcs : w.arcs = [] := by
    refine hinv.taken fun hplain => ?_
    rcases hslot with ⟨h, -⟩ | ⟨h, -⟩ <;> exact absurd (hplain.symm.trans h) nofun
  unfold Wrapper.pollUpgrade at h
  split at h
  · next hpc =>
    cases h
    refine hinv.setUpgrade hother harcs (Or.inl ?_) (fun token h => ⟨token, h⟩) ?_
    · rw [hpc] at hslot
      have hupgrading := hslot.resolve_right fun h => absurd h.2 (by simp)
      dsimp only
      split
      · exact ⟨hupgrading.1, nofun, nofun⟩
      · exact ⟨hupgrading.1, nofun, nofun⟩
    · dsimp only
      split <;> exact nofun
  · next hpc =>
    split at h
    · next w₁ hfinish =>
      obtain ⟨token, -, -, rfl⟩ := finishSecure_eq_ok.mp hfinish
      cases h
      exact hinv.setUpgrade hother harcs (Or.inr ⟨rfl, Or.inl rfl⟩) (fun _ _ => ⟨id, rfl⟩) nofun
    · cases h
      rw [hpc] at hslot
      have hupgrading := hslot.resolve_right fun h => absurd h.2 (by simp)
      exact hinv.setUpgrade hother harcs (Or.inl ⟨hupgrading.1, nofun, nofun⟩)
        (fun token h => ⟨token, h⟩) nofun
  · next hpc =>
    cases h
    rw [hpc] at hslot
    have hsecure := hslot.resolve_left fun h => absurd rfl h.2.1
    exact hinv.setUpgrade hother harcs (Or.inr ⟨hsecure.1, Or.inr rfl⟩)
      (fun token h => ⟨token, h⟩) nofun
  · next hpc =>
    cases h
    rw [hpc] at hslot
    have hupgrading := hslot.resolve_right fun h => absurd h.2 (by simp)
    exact hinv.setUpgrade hother harcs (Or.inl ⟨hupgrading.1, nofun, nofun⟩)
      (fun token h => ⟨token, h⟩) fun _ => rfl
  · exact absurd h nofun
  · exact absurd h nofun

/-- **Ownership is kept.** -/
theorem OwnInv.step (hinv : OwnInv w) (h : w.step label = some w') : OwnInv w' := by
  have hplain : w.slot = .plain → ∀ i, w.upgrades i = none := by
    intro hplain i
    by_contra hne
    obtain ⟨v, hv⟩ := Option.ne_none_iff_exists'.mp hne
    rcases hinv.upgrade i v hv with ⟨hslot, -⟩ | ⟨hslot, -⟩ <;>
      exact absurd (hplain.symm.trans hslot) nofun
  unfold Wrapper.step at h
  split at h
  case h_1 id op =>
    split at h
    · next hnone =>
      split_ifs at h
      cases h
      exact hinv.start hnone
    · exact absurd h nofun
  case h_2 id =>
    split at h
    · next hnone =>
      cases h
      exact hinv.close hnone
    · exact absurd h nofun
  case h_3 id =>
    obtain ⟨b, hb, hpoll⟩ := Option.bind_eq_some_iff.mp h
    split at hpoll
    · next hhandle => exact hinv.poll hb hhandle hpoll
    · next hhandle => exact hinv.pollSecure hb hhandle hpoll
  case h_4 id =>
    obtain ⟨b, hb, hdrop⟩ := Option.bind_eq_some_iff.mp h
    split at hdrop
    · next hhandle => exact hinv.drop hb hhandle hdrop
    · next hhandle => exact hinv.dropSecure hb hhandle hdrop
  case h_5 id =>
    split at h
    · next outcome hdone =>
      cases h
      obtain ⟨t, ht, hpc⟩ := Option.map_eq_some_iff.mp hdone
      refine ⟨fun i b hb hholds => ?_, hinv.secured, hinv.awaited, fun i t' ht' hlive => ?_,
        fun hne => ?_, hinv.named, hinv.upgrade, hinv.ended⟩
      · exact (List.mem_erase_of_ne (show Holder.block i ≠ .task id from nofun)).mpr
          (hinv.block i b hb hholds)
      · by_cases hi : i = id
        · subst hi
          obtain rfl := Option.some.inj (ht.symm.trans ht')
          rw [hpc] at hlive
          exact hlive.elim
        · exact (List.mem_erase_of_ne fun heq => hi (Holder.task.inj heq)).mpr
            (hinv.task i t' ht' hlive)
      · rw [hinv.taken hne]
        rfl
    · exact absurd h nofun
  case h_6 =>
    split at h
    · next w₁ htake =>
      cases h
      obtain ⟨hslot, harcs, rfl⟩ := takePlain_eq_ok.mp htake
      have hnone := hplain hslot
      refine ⟨hinv.block, fun i b hb hhandle => ?_, hinv.awaited, hinv.task, fun _ => harcs,
        fun i hi => absurd hi (by simp), fun i v hv => absurd ((hnone i).symm.trans hv) nofun,
        fun i v hv => absurd ((hnone i).symm.trans hv) nofun⟩
      obtain ⟨-, token, hsecure⟩ := hinv.secured i b hb hhandle
      exact absurd (hslot.symm.trans hsecure) nofun
    · cases h
      exact hinv
  case h_7 id =>
    split at h
    · split at h
      · next w₁ htake =>
        obtain ⟨hslot, harcs, rfl⟩ := takePlain_eq_ok.mp htake
        cases h
        exact hinv.setUpgrade (fun i _ => hplain hslot i) harcs (Or.inl ⟨rfl, nofun, nofun⟩)
          (fun token h => absurd (hslot.symm.trans h) nofun) nofun
      · cases h
        exact hinv
    · exact absurd h nofun
  case h_8 id answer =>
    obtain ⟨u, hu, hpoll⟩ := Option.bind_eq_some_iff.mp h
    exact hinv.pollUpgrade hu hpoll
  case h_9 id =>
    split at h
    · next u hu =>
      split_ifs at h with hpc
      -- a dropped block does as one whose handshake has failed
      refine hinv.pollUpgrade hu (show w.pollUpgrade id u false = some w' from ?_)
      rw [Wrapper.pollUpgrade, hpc, Bool.and_false]
      exact h
    · exact absurd h nofun
  case h_10 id =>
    split at h
    · cases h
      exact hinv.cancelToken
    · exact absurd h nofun
  case h_11 l =>
    split_ifs at h with hpermits
    obtain ⟨core, hcore, rfl⟩ := Option.map_eq_some_iff.mp h
    refine ⟨hinv.block, hinv.secured, fun i t ht => ?_, fun i t ht hlive => ?_, hinv.taken,
      hinv.named, hinv.upgrade, hinv.ended⟩
    · rcases Core.call_of_step hcore ht with ⟨rfl, -⟩ | ⟨t', ht', hop, -⟩
      · exact absurd hpermits nofun
      · obtain ⟨b, hb, hop'⟩ := hinv.awaited i t' ht'
        exact ⟨b, hb, hop.trans hop'⟩
    · obtain ⟨t', ht', hlive'⟩ := task_of_step hcore
        (fun i op hl => by subst hl; exact absurd hpermits nofun) i t ht hlive
      exact hinv.task i t' ht' hlive'

theorem ownInv_of_runs {allowed : Wrapper ι → OwnLabel ι → Prop}
    (h : Runs Wrapper.step allowed w w') (hinv : OwnInv w) : OwnInv w' :=
  h.invariant OwnInv hinv fun _ _ _ hinv _ => hinv.step

/-! ### The slot -/

/-- The calls that try to take the connection. -/
def OwnLabel.takes : OwnLabel ι → Bool
  | .intoSplit => true
  | .establish _ => true
  | _ => false

/-- The calls that take it in a step. -/
def takes (w : Wrapper ι) : OwnLabel ι → List (OwnLabel ι)
  | .intoSplit => if w.takeForSplit.isOk then [.intoSplit] else []
  | .establish id => if w.upgrades id = none ∧ (w.beginSecure id).isOk then [.establish id] else []
  | _ => []

/-- What a step does to the slot and to the upgrades. -/
inductive Wrapper.Moved (w : Wrapper ι) : OwnLabel ι → Wrapper ι → Prop
  | kept (label : OwnLabel ι) (w' : Wrapper ι) : label.takes = false → w'.slot = w.slot →
      w'.upgrades = w.upgrades → Moved w label w'
  | cancelled (label : OwnLabel ι) (w' : Wrapper ι) (id : ι) : label.takes = false →
      w'.slot = w.slot → w'.upgrades = (w.cancelToken id).upgrades → Moved w label w'
  | polled (label : OwnLabel ι) (w' : Wrapper ι) (id : ι) (u : Upgrade) (answer : Bool) :
      label.takes = false → w.upgrades id = some u → w.pollUpgrade id u answer = some w' →
      Moved w label w'
  | refused (label : OwnLabel ι) : takes w label = [] → Moved w label w
  | split : w.slot = .plain → w.arcs = [] → Moved w .intoSplit { w with slot := .consumed }
  | began (id : ι) : w.slot = .plain → w.arcs = [] → w.upgrades id = none →
      Moved w (.establish id) (({ w with slot := .upgrading id } : Wrapper ι).setUpgrade id {})

theorem Wrapper.start_moved (w : Wrapper ι) (id : ι) (op : Op) :
    (w.start id op).slot = w.slot ∧ (w.start id op).upgrades = w.upgrades := by
  unfold Wrapper.start
  split <;> exact ⟨rfl, rfl⟩

theorem Wrapper.poll_moved (h : w.poll id b = some w') :
    w'.slot = w.slot ∧ w'.upgrades = w.upgrades := by
  unfold Wrapper.poll at h
  split at h
  · obtain ⟨core, -, rfl⟩ := Option.map_eq_some_iff.mp h
    exact ⟨rfl, rfl⟩
  · split at h
    · cases h; exact ⟨rfl, rfl⟩
    · cases h; exact ⟨rfl, rfl⟩
    · cases h; exact ⟨rfl, rfl⟩
    · exact absurd h nofun
  · split_ifs at h
    · cases h; exact ⟨rfl, rfl⟩
    · obtain ⟨core, -, rfl⟩ := Option.map_eq_some_iff.mp h
      exact ⟨rfl, rfl⟩
    · cases h; exact ⟨rfl, rfl⟩
  · cases h; exact ⟨rfl, rfl⟩
  · exact absurd h nofun
  · exact absurd h nofun

theorem Wrapper.drop_moved (h : w.drop id b = some w') :
    w'.slot = w.slot ∧ w'.upgrades = w.upgrades := by
  unfold Wrapper.drop at h
  split at h
  · cases h; exact ⟨rfl, rfl⟩
  · obtain ⟨core, -, rfl⟩ := Option.map_eq_some_iff.mp h
    exact ⟨rfl, rfl⟩
  · exact absurd h nofun

theorem Wrapper.pollSecure_moved (h : w.pollSecure id b = some w') :
    w'.slot = w.slot ∧ w'.upgrades = w.upgrades := by
  unfold Wrapper.pollSecure at h
  split at h
  · obtain ⟨core, -, rfl⟩ := Option.map_eq_some_iff.mp h
    exact ⟨rfl, rfl⟩
  · split at h
    · cases h; exact ⟨rfl, rfl⟩
    · exact absurd h nofun
  · exact absurd h nofun

theorem Wrapper.dropSecure_moved (h : w.dropSecure id b = some w') :
    w'.slot = w.slot ∧ w'.upgrades = w.upgrades := by
  unfold Wrapper.dropSecure at h
  split at h
  · cases h; exact ⟨rfl, rfl⟩
  · obtain ⟨core, -, rfl⟩ := Option.map_eq_some_iff.mp h
    exact ⟨rfl, rfl⟩
  · exact absurd h nofun

/-- **The list is complete.** -/
theorem Wrapper.moved (h : w.step label = some w') : w.Moved label w' := by
  unfold Wrapper.step at h
  split at h
  case h_1 id op =>
    split at h
    · split_ifs at h
      cases h
      obtain ⟨hslot, hupgrades⟩ := w.start_moved id op
      exact .kept _ _ rfl hslot hupgrades
    · exact absurd h nofun
  case h_2 id =>
    split at h
    · cases h
      unfold Wrapper.close
      split
      · exact .kept _ _ rfl rfl rfl
      · next token _ => exact .cancelled _ _ token rfl rfl rfl
      · next token _ => exact .cancelled _ _ token rfl rfl rfl
      · exact .kept _ _ rfl rfl rfl
    · exact absurd h nofun
  case h_3 id =>
    obtain ⟨b, -, hpoll⟩ := Option.bind_eq_some_iff.mp h
    obtain ⟨hslot, hupgrades⟩ : w'.slot = w.slot ∧ w'.upgrades = w.upgrades := by
      split at hpoll
      · exact Wrapper.poll_moved hpoll
      · exact Wrapper.pollSecure_moved hpoll
    exact .kept _ _ rfl hslot hupgrades
  case h_4 id =>
    obtain ⟨b, -, hdrop⟩ := Option.bind_eq_some_iff.mp h
    obtain ⟨hslot, hupgrades⟩ : w'.slot = w.slot ∧ w'.upgrades = w.upgrades := by
      split at hdrop
      · exact Wrapper.drop_moved hdrop
      · exact Wrapper.dropSecure_moved hdrop
    exact .kept _ _ rfl hslot hupgrades
  case h_5 id =>
    split at h
    · cases h
      exact .kept _ _ rfl rfl rfl
    · exact absurd h nofun
  case h_6 =>
    split at h
    · next w₁ htake =>
      cases h
      obtain ⟨hslot, harcs, rfl⟩ := takePlain_eq_ok.mp htake
      exact .split hslot harcs
    · next e hrefused =>
      cases h
      exact .refused _ (by simp [takes, hrefused, Except.isOk, Except.toBool])
  case h_7 id =>
    split at h
    · next hnone =>
      split at h
      · next w₁ htake =>
        obtain ⟨hslot, harcs, rfl⟩ := takePlain_eq_ok.mp htake
        cases h
        exact .began id hslot harcs hnone
      · next e hrefused =>
        cases h
        exact .refused _ (by simp [takes, hrefused, Except.isOk, Except.toBool])
    · exact absurd h nofun
  case h_8 id answer =>
    obtain ⟨u, hu, hpoll⟩ := Option.bind_eq_some_iff.mp h
    exact .polled _ _ id u answer rfl hu hpoll
  case h_9 id =>
    split at h
    · next u hu =>
      split_ifs at h with hpc
      -- a dropped block does as one whose handshake has failed
      refine .polled _ _ id u false rfl hu ?_
      rw [Wrapper.pollUpgrade, hpc, Bool.and_false]
      exact h
    · exact absurd h nofun
  case h_10 id =>
    split at h
    · cases h
      exact .cancelled _ _ id rfl rfl rfl
    · exact absurd h nofun
  case h_11 l =>
    split_ifs at h
    obtain ⟨core, -, rfl⟩ := Option.map_eq_some_iff.mp h
    exact .kept _ _ rfl rfl rfl

/-- How the slot may move. -/
inductive SlotMove : Slot ι → Slot ι → Prop
  | stay (slot : Slot ι) : SlotMove slot slot
  | split : SlotMove .plain .consumed
  | upgrade (id : ι) : SlotMove .plain (.upgrading id)
  | secure (id : ι) : SlotMove (.upgrading id) (.secure id)

/-- What a poll of an upgrade does to the slot. -/
theorem OwnInv.slot_of_pollUpgrade (hinv : OwnInv w) (hu : w.upgrades id = some u) {answer : Bool}
    (h : w.pollUpgrade id u answer = some w') : w'.slot = w.slot ∨
      (u.pc = .made ∧ u.cancelled = false ∧ w.slot = .upgrading id ∧ w'.slot = .secure id) := by
  unfold Wrapper.pollUpgrade at h
  split at h
  · cases h; exact Or.inl rfl
  · next hpc =>
    split at h
    · next w₁ hfinish =>
      obtain ⟨token, hslot, hclear, rfl⟩ := finishSecure_eq_ok.mp hfinish
      cases h
      -- the token in the slot is the upgrade's own
      obtain rfl : token = id := by
        rcases hinv.upgrade id u hu with ⟨hown, -⟩ | ⟨hown, -⟩
        · exact Slot.upgrading.inj (hslot.symm.trans hown)
        · exact absurd (hslot.symm.trans hown) nofun
      rw [Wrapper.cancelled, hu] at hclear
      exact Or.inr ⟨hpc, hclear, hslot, rfl⟩
    · cases h; exact Or.inl rfl
  · cases h; exact Or.inl rfl
  · cases h; exact Or.inl rfl
  · exact absurd h nofun
  · exact absurd h nofun

/-- **The slot moves forward only.** -/
theorem OwnInv.slotMove (hinv : OwnInv w) (h : w.step label = some w') :
    SlotMove w.slot w'.slot := by
  cases Wrapper.moved h with
  | kept _ _ _ hslot _ => rw [hslot]; exact .stay _
  | cancelled _ _ id _ hslot _ => rw [hslot]; exact .stay _
  | polled _ _ id u answer _ hu hpoll =>
    rcases hinv.slot_of_pollUpgrade hu hpoll with hslot | ⟨-, -, hold, hnew⟩
    · rw [hslot]; exact .stay _
    · rw [hold, hnew]; exact .secure id
  | refused _ _ => exact .stay _
  | split hslot _ => rw [hslot]; exact .split
  | began id hslot _ _ => rw [hslot]; exact .upgrade id

omit [DecidableEq ι] in
theorem takes_of_not_takes (w : Wrapper ι) (h : label.takes = false) : takes w label = [] := by
  cases label with
  | intoSplit => exact absurd h nofun
  | establish id => exact absurd h nofun
  | _ => rfl

/-- A call that has failed to take the connection has changed nothing. -/
theorem eq_of_refused (h : w.step label = some w') (hlabel : label.takes = true)
    (hrefused : takes w label = []) : w' = w := by
  have hno : ∀ {P : Prop}, label.takes = false → P :=
    fun hfalse => absurd (hlabel.symm.trans hfalse) nofun
  cases Wrapper.moved h with
  | kept _ _ hfalse _ _ => exact hno hfalse
  | cancelled _ _ id hfalse _ _ => exact hno hfalse
  | polled _ _ id u answer hfalse _ _ => exact hno hfalse
  | refused _ _ => rfl
  | split hslot harcs =>
    simp [takes, Wrapper.takeForSplit, Wrapper.takePlain, hslot, harcs, Except.isOk,
      Except.toBool] at hrefused
  | began id hslot harcs hnone =>
    simp [takes, Wrapper.beginSecure, Wrapper.takePlain, hslot, harcs, hnone, Except.isOk,
      Except.toBool] at hrefused

/-- **The connection is taken once.** -/
theorem OwnInv.takes_length (hinv : OwnInv w) (h : w.step label = some w') :
    (if w.slot = .plain then 0 else 1) + (takes w label).length
      = if w'.slot = .plain then 0 else 1 := by
  have hsame : takes w label = [] → w'.slot = w.slot →
      (if w.slot = .plain then 0 else 1) + (takes w label).length
        = if w'.slot = .plain then 0 else 1 := by
    intro htakes hslot
    rw [htakes, hslot, List.length_nil, Nat.add_zero]
  cases Wrapper.moved h with
  | kept _ _ hfalse hslot _ => exact hsame (takes_of_not_takes w hfalse) hslot
  | cancelled _ _ id hfalse hslot _ => exact hsame (takes_of_not_takes w hfalse) hslot
  | polled _ _ id u answer hfalse hu hpoll =>
    rcases hinv.slot_of_pollUpgrade hu hpoll with hslot | ⟨-, -, hold, hnew⟩
    · exact hsame (takes_of_not_takes w hfalse) hslot
    · simp [takes_of_not_takes w hfalse, hold, hnew]
  | refused _ htakes => exact hsame htakes rfl
  | split hslot harcs =>
    simp [takes, Wrapper.takeForSplit, Wrapper.takePlain, hslot, harcs, Except.isOk, Except.toBool]
  | began id hslot harcs hnone =>
    simp [takes, Wrapper.beginSecure, Wrapper.takePlain, hslot, harcs, hnone, Except.isOk,
      Except.toBool, Wrapper.setUpgrade]

/-! ### A connection that was taken -/

/-- Nobody reaches the raw connection through the wrapper, but a `close` that has found a session in
the slot: no clone is held, a raw method raises, no task can step the core, and no block can but
that of such a `close`, which awaits the core's. -/
structure Taken (w : Wrapper ι) : Prop where
  arcs : w.arcs = []
  blocks : ∀ id b, w.blocks id = some b → ¬b.Holds
  tasks : ∀ id t, w.core.calls (.spawned id) = some t → ¬t.pc.Live
  silent : ∀ id choice, w.step (.core (.poll (.spawned id) choice)) = none ∧
    ((∀ b, w.blocks id = some b → b.handle = .plain) →
      w.step (.core (.poll (.awaited id) choice)) = none)
  closes : ∀ id b, w.blocks id = some b → b.handle = .secure → b.op = .close ∧
    (∃ token, w.slot = .secure token) ∧
    ∀ t, w.core.calls (.awaited id) = some t → t.op = .close
  raises : ∀ id op, ∃ e, w.start id op = w.setBlock id { op := op, pc := .raised e }

omit [DecidableEq ι] in
theorem plainConnection_of_ne (h : w.slot ≠ .plain) : ∃ e, w.plainConnection = .error e := by
  unfold Wrapper.plainConnection
  split
  · next hplain => exact absurd hplain h
  · exact ⟨_, rfl⟩
  · split <;> exact ⟨_, rfl⟩
  · exact ⟨_, rfl⟩

/-- **What holds while the connection is not in the slot.** -/
theorem OwnInv.taken_of_ne (hinv : OwnInv w) (h : w.slot ≠ .plain) : Taken w := by
  have harcs := hinv.taken h
  have hblocks : ∀ id b, w.blocks id = some b → ¬b.Holds := fun id b hb hholds =>
    absurd (harcs ▸ hinv.block id b hb hholds) List.not_mem_nil
  have htasks : ∀ id t, w.core.calls (.spawned id) = some t → ¬t.pc.Live := fun id t ht hlive =>
    absurd (harcs ▸ hinv.task id t ht hlive) List.not_mem_nil
  refine ⟨harcs, hblocks, htasks, fun id choice => ⟨?_, fun hplain => ?_⟩,
    fun id b hb hhandle => ?_, fun id op => ?_⟩
  · change (if w.permits (.poll (.spawned id) choice) then
      (w.core.step (.poll (.spawned id) choice)).map _ else none) = none
    rw [if_pos (show w.permits (.poll (.spawned id) choice) = true from rfl),
      Option.map_eq_none_iff]
    by_contra hne
    obtain ⟨core, hcore⟩ := Option.ne_none_iff_exists'.mp hne
    obtain ⟨i, c, hstepped⟩ := Core.stepped hcore
    cases hstepped with
    | polled _ _ t _ _ ht _ hpolled => exact htasks id t ht hpolled.live
  · refine if_neg fun hpermits => ?_
    obtain ⟨b, hb, hpc⟩ := Option.map_eq_some_iff.mp (of_decide_eq_true hpermits)
    exact hblocks id b hb ⟨hplain b hb, hpc ▸ trivial⟩
  · obtain ⟨hop, hslot⟩ := hinv.secured id b hb hhandle
    refine ⟨hop, hslot, fun t ht => ?_⟩
    obtain ⟨c, hc, hop'⟩ := hinv.awaited id t ht
    rw [hop', Option.some.inj (hc.symm.trans hb), hop]
  · obtain ⟨e, he⟩ := plainConnection_of_ne h
    refine ⟨e, ?_⟩
    rw [Wrapper.start, he]

/-! ### An upgrade that has failed -/

/-- The token of the upgrade is cancelled, or its block is on its way to cancel it. -/
def Wrapper.Failed (w : Wrapper ι) (id : ι) : Prop :=
  ∃ u, w.upgrades id = some u ∧ (u.cancelled = true ∨ u.pc = .failing ∨ u.pc = .ended)

/-- A session is in the slot, and `ensure_open` lets its operations pass. -/
def Wrapper.secureOpen (w : Wrapper ι) : Bool :=
  match w.slot with
  | .secure id => !w.cancelled id
  | _ => false

/-- The wrapper offers neither raw nor secure operations. -/
def Unusable (w : Wrapper ι) : Prop :=
  (∃ e, w.plainConnection = .error e) ∧ w.secureOpen = false

omit [DecidableEq ι] in
/-- It has taken the connection. -/
theorem OwnInv.ne_plain (hinv : OwnInv w) (hfailed : w.Failed id) : w.slot ≠ .plain := by
  obtain ⟨u, hu, -⟩ := hfailed
  rcases hinv.upgrade id u hu with ⟨hslot, -⟩ | ⟨hslot, -⟩ <;> simp [hslot]

/-- **A failed upgrade stays failed**, and puts no session into the slot. -/
theorem OwnInv.failed_step (hinv : OwnInv w) (hfailed : w.Failed id) (h : w.step label = some w') :
    w'.Failed id ∧ (w'.slot = .secure id → w.slot = .secure id) := by
  have hplain : ∀ {P : Prop}, w.slot = .plain → P := fun h => absurd h (hinv.ne_plain hfailed)
  obtain ⟨u, hu, hpc⟩ := hfailed
  have hset : ∀ {w : Wrapper ι} {v : Upgrade},
      (v.cancelled = true ∨ v.pc = .failing ∨ v.pc = .ended) → (w.setUpgrade id v).Failed id :=
    fun hv => ⟨_, Function.update_self .., hv⟩
  cases Wrapper.moved h with
  | kept _ _ _ hslot hupgrades => exact ⟨⟨u, hupgrades ▸ hu, hpc⟩, fun h => hslot ▸ h⟩
  | cancelled _ _ i _ hslot hupgrades =>
    refine ⟨?_, fun h => hslot ▸ h⟩
    by_cases hi : id = i
    · subst hi
      exact ⟨_, hupgrades ▸ Wrapper.cancelToken_self hu, Or.inl rfl⟩
    · refine ⟨u, ?_, hpc⟩
      rw [hupgrades, Wrapper.cancelToken_of_ne hi]
      exact hu
  | polled _ _ i v answer _ hv hpoll =>
    obtain rfl := hinv.upgrade_unique hu hv
    obtain rfl := Option.some.inj (hu.symm.trans hv)
    refine ⟨?_, fun hsecure => ?_⟩
    · unfold Wrapper.pollUpgrade at hpoll
      split at hpoll
      · next hhandshake =>
        cases hpoll
        obtain hcancelled : u.cancelled = true := by simpa [hhandshake] using hpc
        exact hset (Or.inl hcancelled)
      · next hmade =>
        obtain hcancelled : u.cancelled = true := by simpa [hmade] using hpc
        split at hpoll
        · cases hpoll
          exact hset (Or.inl hcancelled)
        · cases hpoll
          exact hset (Or.inl hcancelled)
      · next hfinished =>
        cases hpoll
        obtain hcancelled : u.cancelled = true := by simpa [hfinished] using hpc
        exact hset (Or.inl hcancelled)
      · cases hpoll
        exact hset (Or.inl rfl)
      · exact absurd hpoll nofun
      · exact absurd hpoll nofun
    · rcases hinv.slot_of_pollUpgrade hu hpoll with hslot | ⟨hmade, hclear, -, -⟩
      · exact hslot ▸ hsecure
      · exact absurd hpc (by simp [hmade, hclear])
  | refused _ _ => exact ⟨⟨u, hu, hpc⟩, fun h => h⟩
  | split hslot _ => exact hplain hslot
  | began _ hslot _ _ => exact hplain hslot

omit [DecidableEq ι] in
theorem OwnInv.unusable (hinv : OwnInv w) (hfailed : w.Failed id) : Unusable w := by
  refine ⟨plainConnection_of_ne (hinv.ne_plain hfailed), ?_⟩
  obtain ⟨u, hu, hpc⟩ := hfailed
  rcases hinv.upgrade id u hu with ⟨hslot, -⟩ | ⟨hslot, hdone⟩
  · rw [Wrapper.secureOpen, hslot]
  · have hcancelled : u.cancelled = true := by
      rcases hdone with hdone | hdone <;> simpa [hdone] using hpc
    simp [Wrapper.secureOpen, hslot, Wrapper.cancelled, hu, hcancelled]

/-- **Who can own the connection.** It is taken at most once, when no clone of it is held; from then
on nobody reaches it through the wrapper, but a `close` that has found a session. A call that fails
to take it changes nothing. A session takes the place of its own upgrade only, and only where the
upgrade has not failed; behind a failed upgrade the wrapper offers nothing but such a `close`. -/
theorem exclusive_ownership {x : Wrapper ι × List (OwnLabel ι)}
    (h : Runs (withHistory Wrapper.step takes) (fun _ _ => True) ({}, []) x) :
    x.2.length ≤ 1 ∧
      (∀ label w', x.1.step label = some w' →
        SlotMove x.1.slot w'.slot ∧
        (label.takes = true → takes x.1 label = [] → w' = x.1) ∧
        (takes x.1 label ≠ [] → ∀ w'', Runs Wrapper.step (fun _ _ => True) w' w'' → Taken w'') ∧
        ∀ id, w'.slot = .secure id → x.1.slot = .secure id ∨ ¬x.1.Failed id) ∧
      ∀ id, x.1.Failed id → ∀ w', Runs Wrapper.step (fun _ _ => True) x.1 w' →
        w'.Failed id ∧ Taken w' ∧ Unusable w' := by
  have hinv : OwnInv x.1 :=
    ownInv_of_runs (h.of_withHistory fun _ _ _ => trivial : Runs _ (fun _ _ => True) _ _)
      ownInv_init
  refine ⟨?_, fun label w' hstep =>
    ⟨hinv.slotMove hstep, eq_of_refused hstep, fun htakes w'' hruns =>
    ?_, fun id hsecure => ?_⟩, fun id hfailed w' hruns => ?_⟩
  · have hlength : OwnInv x.1 ∧ x.2.length = if x.1.slot = .plain then 0 else 1 := by
      refine h.invariant (fun x => OwnInv x.1 ∧ x.2.length = if x.1.slot = .plain then 0 else 1)
        ⟨ownInv_init, rfl⟩ ?_
      rintro x label y ⟨hinv, hlength⟩ - hstep
      obtain ⟨hstep, hshown⟩ := withHistory_eq_some.mp hstep
      exact ⟨hinv.step hstep, by
        rw [hshown, List.length_append, hlength, hinv.takes_length hstep]⟩
    rw [hlength.2]
    split <;> omega
  · -- the slot does not become plain again
    have hlength := hinv.takes_length hstep
    have hpos := List.length_pos_of_ne_nil htakes
    have hkeeps := hruns.invariant (fun w => OwnInv w ∧ w.slot ≠ .plain)
      ⟨hinv.step hstep, fun hplain => ?_⟩ ?_
    · exact hkeeps.1.taken_of_ne hkeeps.2
    · rw [if_pos hplain] at hlength
      omega
    · rintro w label w' ⟨hinv, hne⟩ - hstep
      refine ⟨hinv.step hstep, fun hplain => ?_⟩
      have hmove := hinv.slotMove hstep
      rw [hplain] at hmove
      generalize w.slot = slot at hmove hne
      cases hmove
      exact hne rfl
  · by_contra hno
    obtain ⟨hne, hfailed⟩ := not_or.mp hno
    exact hne ((hinv.failed_step (not_not.mp hfailed) hstep).2 hsecure)
  · have hkeeps := hruns.invariant (fun w => OwnInv w ∧ w.Failed id) ⟨hinv, hfailed⟩
      fun w label w' ⟨hinv, hfailed⟩ _ hstep =>
        ⟨hinv.step hstep, (hinv.failed_step hfailed hstep).1⟩
    exact ⟨hkeeps.2, hkeeps.1.taken_of_ne (hkeeps.1.ne_plain hkeeps.2),
      hkeeps.1.unusable hkeeps.2⟩

/-- An upgrade is refused while `shutdown_read` is pending, then takes the connection, and is
cancelled by `close` when its handshake has just made a session. -/
def contesting : List (OwnLabel ℕ) :=
  [OwnLabel.call 0 .shutdownRead, .poll 0, .establish 1]
    ++ List.replicate 5 (OwnLabel.core (.poll (.awaited 0) .go))
    ++ List.replicate 3 (OwnLabel.poll 0)
    ++ [OwnLabel.establish 1, .upgrade 1 true, .close 2, .upgrade 1 true, .upgrade 1 true]

def contested : Wrapper ℕ × List (OwnLabel ℕ) :=
  (runLabels (withHistory Wrapper.step takes) (fun _ _ => true) ({}, []) contesting).getD ({}, [])

theorem runs_contested :
    Runs (withHistory Wrapper.step takes) (fun _ _ => True) ({}, []) contested :=
  runs_of_runLabels (fun _ _ _ => trivial)
    (show runLabels _ (fun _ _ => true) ({}, []) contesting = some contested from rfl)

theorem exclusive_ownership_contested :
    contested.2 = [.establish 1] ∧ contested.1.slot = .upgrading 1 ∧ Unusable contested.1 :=
  ⟨rfl, rfl, ((exclusive_ownership runs_contested).2.2 1 ⟨_, rfl, Or.inl rfl⟩ _ .refl).2.2⟩

/-- A session is in the slot when `close` is called, and its block has come to the raw shutdown. -/
def securedClose : List (OwnLabel ℕ) :=
  [OwnLabel.establish 0, .upgrade 0 true, .upgrade 0 true, .close 1, .poll 1]
    ++ List.replicate 8 (OwnLabel.core (.poll (.awaited 1) .go))
    ++ List.replicate 2 (OwnLabel.core (.poll (.awaited 1) .gate))

def securedClosed : Wrapper ℕ × List (OwnLabel ℕ) :=
  (runLabels (withHistory Wrapper.step takes) (fun _ _ => true) ({}, []) securedClose).getD ({}, [])

theorem runs_securedClosed :
    Runs (withHistory Wrapper.step takes) (fun _ _ => True) ({}, []) securedClosed :=
  runs_of_runLabels (fun _ _ _ => trivial)
    (show runLabels _ (fun _ _ => true) ({}, []) securedClose = some securedClosed from rfl)

/-- **`close` reaches the connection of a session**: the raw shutdown of a block of the wrapper goes
on behind the upgrade that has taken the connection. -/
theorem close_reaches_session :
    ¬∀ x : Wrapper ℕ × List (OwnLabel ℕ),
      Runs (withHistory Wrapper.step takes) (fun _ _ => True) ({}, []) x → x.2 ≠ [] →
      ∀ id choice t, x.1.core.calls (.awaited id) = some t → t.pc = .io →
        x.1.step (.core (.poll (.awaited id) choice)) = none := fun h =>
  absurd (h _ runs_securedClosed (List.cons_ne_nil _ _) 1 .complete _ rfl rfl)
    (Option.some_ne_none _)

end Python

end Taunicorn
