import Taunicorn.Transport.Calls

/-!
# The two directions of a connection

Both directions of a connection share the flags `closed` and `paused`, the close token and the slot
of the raw stream, and nothing else. In a run in which no call closes the connection, neither by
request nor because of a failure, a call of one direction leaves no trace that a call of the other
could see.

`Core.only` is the connection without the calls of the other direction and with everything that is
the other direction's as it was in the beginning. It is again a state of the same machine, so that
deleting calls from a run is a projection of the machine to itself.

## Main definitions

* `Op.direction` — whose an operation is
* `Core.only` — what a connection looks like from one direction
* `undisturbed` — the steps that do not close the connection

## Main results

* `Call.poll_only` — a call sees its own direction alone
* `Core.step_kept`, `Core.step_deleted` — the steps of the two directions, seen from one
* `directions_independent` — deleting the calls of one direction
-/

namespace Taunicorn

namespace Transport

variable {ι : Type} {sh : Shared ι} {id : ι} {op : Op} {pc pc' : PC} {w w' : ℕ} {choice : Choice}
  {effect : Effect} {call call' : Call} {core core' : Core ι} {label : Label ι}

/-! ### Directions -/

inductive Direction where
  | read
  | write
  deriving DecidableEq, Repr

def Direction.other : Direction → Direction
  | .read => .write
  | .write => .read

/-- The direction of an operation, if it has one. -/
def Op.direction : Op → Option Direction
  | .receive _ => some .read
  | .shutdownRead => some .read
  | .writeOnce _ => some .write
  | .send _ => some .write
  | .sendTimeout _ _ => some .write
  | .flush => some .write
  | .shutdownWrite => some .write
  | .close => none
  | .pause => none
  | .resume => none

/-- The flag that shuts a direction down. -/
def Direction.flag : Direction → Flag
  | .read => .readShutdown
  | .write => .writeShutdown

/-- The shared state, as far as it is not the other direction's. -/
def Shared.only (sh : Shared ι) : Direction → Shared ι
  | .read =>
    { sh with state := { sh.state with writeShutdown := false }, writeGate := {}, wire := [] }
  | .write =>
    { sh with
      state := { sh.state with readShutdown := false, peerSentEof := false }
      readShutdownToken := false
      readGate := {} }

/-- The call is not the other direction's. -/
def Call.seenFrom (d : Direction) (call : Call) : Bool := call.op.direction != some d.other

/-- The connection, as far as it is not the other direction's. -/
def Core.only (core : Core ι) (d : Direction) : Core ι :=
  { shared := core.shared.only d
    calls := fun id => (core.calls id).filter (Call.seenFrom d) }

/-- Whose step it is. -/
def Label.caller : Label ι → ι
  | .call id _ => id
  | .poll id _ => id
  | .drop id => id

/-- The step is not one of a call of the other direction. -/
def Core.keeps (core : Core ι) (d : Direction) (label : Label ι) : Bool :=
  (core.calls label.caller).all (Call.seenFrom d)

/-- A step that neither closes the connection nor answers a raw operation with a failure: no call of
`close`, no error and no zero write of the raw stream, no deadline in a write loop. -/
def undisturbed (core : Core ι) : Label ι → Bool
  | .call _ .close => false
  | .poll _ (.fail _) => false
  | .poll _ (.accept n) => n != 0
  | .poll id .timeout =>
    match core.calls id with
    | some ⟨_, .io, _⟩ => false
    | _ => true
  | _ => true

/-! ### Where a call stands, by its operation -/

/-- The operations that take a gate, `close` aside. -/
def Op.gated : Op → Bool
  | .receive _ => true
  | .writeOnce _ => true
  | .send _ => true
  | .sendTimeout _ _ => true
  | .flush => true
  | .shutdownWrite => true
  | _ => false

/-- Where a call of the operation can stand while nothing closes the connection. -/
def Op.Aims (op : Op) : PC → Prop
  | .eof _ => op.reads = true
  | .ensure _ flag => op.gated = true ∧ (flag = .closed ∨ flag = .paused ∨ flag = op.flag)
  | .idle behindGate flag =>
    op.stored.isSome = true ∧ (behindGate = true → op.gated = true) ∧
      (flag = .closed ∨ (flag = op.flag ∧ op.direction.isSome = true))
  | .deadline => op.gated = true
  | .gate => op.gated = true
  | .gateWait => op.gated = true
  | .store => op.stored.isSome = true
  | .cancelRead => op = .shutdownRead
  | .streamClosed => op.gated = true
  | .stream => op.gated = true
  | .io => op.gated = true
  | .storeEof => op.reads = true
  | .closing _ _ _ => False
  | .unwind _ => op.gated = true
  | _ => True

/-- What the operation does to the shared state then. -/
def Op.Acts (op : Op) : Effect → Prop
  | .none => True
  | .store flag _ =>
    (flag = .paused ∧ op.direction = none) ∨ (flag = op.flag ∧ op.direction.isSome = true) ∨
      (flag = .peerSentEof ∧ op.reads = true)
  | .cancelClose => False
  | .cancelRead => op = .shutdownRead
  | .takeStream => False
  | .request => op.gated = true
  | .leave => op.gated = true
  | .write _ => op.direction = some .write

theorem Op.gated_of_reads (h : op.reads = true) : op.gated = true := by
  cases op <;> first | rfl | exact absurd h Bool.false_ne_true

theorem Op.direction_of_reads (h : op.reads = true) : op.direction = some .read := by
  cases op <;> first | rfl | exact absurd h Bool.false_ne_true

theorem Op.direction_of_gated (h : op.gated = true) (hreads : op.reads = false) :
    op.direction = some .write := by
  cases op <;>
    first
    | rfl
    | exact absurd h Bool.false_ne_true
    | exact absurd hreads.symm Bool.false_ne_true

theorem Op.flag_of_direction {d : Direction} (h : op.direction = some d) : op.flag = d.flag := by
  cases op <;> first | exact absurd h.symm (Option.some_ne_none _) | (cases h; rfl)

theorem Op.direction_of_whole (h : op.whole = true) : op.direction = some .write := by
  cases op <;> first | rfl | exact absurd h Bool.false_ne_true

/-- A step keeps a call where its operation can stand, unless it starts to close the connection. -/
theorem Polled.aims (h : Polled sh id op pc w effect pc' w') (haims : op.Aims pc)
    (hclosing : ∀ stage first error, pc' ≠ .closing stage first error) : op.Aims pc' := by
  have hfinish : ∀ b outcome, (b = true → op.gated = true) → op.Aims (.finish b outcome) := by
    intro b outcome hb
    cases b with
    | false => trivial
    | true => exact hb rfl
  cases h with
  | entered =>
    cases op with
    | close => exact absurd rfl (hclosing _ _ _)
    | receive max => rw [Op.enter]; split <;> trivial
    | writeOnce data => rw [Op.enter]; split <;> simp [Op.Aims, Op.gated]
    | send data => rw [Op.enter]; split <;> simp [Op.Aims, Op.gated]
    | sendTimeout data timeout => rw [Op.enter]; split <;> simp [Op.Aims, Op.gated]
    | _ => simp [Op.enter, Op.Aims, Op.gated, Op.stored]
  | eof b => exact hfinish b _ fun _ => Op.gated_of_reads haims
  | notEof b => exact ⟨Op.gated_of_reads haims, Or.inl rfl⟩
  | refused b flag _ => exact hfinish b _ fun _ => haims.1
  | passed b flag _ =>
    cases flag with
    | closed => exact ⟨haims.1, Or.inr (Or.inl rfl)⟩
    | paused => exact ⟨haims.1, Or.inr (Or.inr rfl)⟩
    | _ =>
      rcases op.afterChecks_cases with ⟨h, -⟩ | h <;>
        cases b <;> simpa [Op.afterEnsure, Op.Aims, h] using haims.1
  | idle b flag => exact hfinish b _ haims.2.1
  | busy b flag =>
    obtain ⟨hstored, hgated, -⟩ := haims
    cases op with
    | shutdownRead =>
      cases b with
      | true => exact absurd (hgated rfl) Bool.false_ne_true
      | false => cases flag <;> simp [Op.afterIdle, Op.Aims, Op.stored, Op.direction]
    | shutdownWrite =>
      cases b <;> cases flag <;> simp [Op.afterIdle, Op.Aims, Op.stored, Op.direction, Op.gated]
    | pause => cases flag <;> rfl
    | resume => cases flag <;> rfl
    | _ => exact absurd hstored Bool.false_ne_true
  | dated _ => exact haims
  | overflowed _ => trivial
  | requested => exact haims
  | gaveUp e _ => trivial
  | granted _ =>
    cases op with
    | receive max => rfl
    | shutdownWrite => exact ⟨rfl, fun _ => rfl, Or.inl rfl⟩
    | writeOnce data => exact ⟨rfl, Or.inl rfl⟩
    | send data => exact ⟨rfl, Or.inl rfl⟩
    | sendTimeout data timeout => exact ⟨rfl, Or.inl rfl⟩
    | flush => exact ⟨rfl, Or.inl rfl⟩
    | _ => exact absurd haims Bool.false_ne_true
  | withdrew e => trivial
  | stored hstored =>
    cases Op.stores_of_stored hstored <;> first | rfl | trivial
  | readCancelled => trivial
  | closedSeen e => exact haims
  | openSeen _ => exact haims
  | noStream e => exact haims
  | stream _ => exact haims
  | interrupted e _ => exact haims
  | accepted n _ _ _ => exact haims
  | completed n _ _ _ => exact haims
  | acceptedOnce data n _ _ _ => exact haims
  | failed e _ => exact absurd rfl (hclosing _ _ _)
  | readEof hreads => exact hreads
  | answered outcome _ _ => exact haims
  | eofStored => exact Op.gated_of_reads haims
  | closing stage first error => exact haims.elim
  | released outcome => trivial

/-- What a step does to the shared state, by its operation. -/
theorem Polled.acts (h : Polled sh id op pc w effect pc' w') (haims : op.Aims pc) :
    op.Acts effect := by
  cases h with
  | requested => exact haims
  | withdrew e => exact haims
  | stored hstored =>
    cases Op.stores_of_stored hstored
    · exact Or.inr (Or.inl ⟨rfl, rfl⟩)
    · exact Or.inr (Or.inl ⟨rfl, rfl⟩)
    · exact Or.inl ⟨rfl, rfl⟩
    · exact Or.inl ⟨rfl, rfl⟩
  | readCancelled => exact haims
  | accepted n hwhole _ _ => exact Op.direction_of_whole hwhole
  | completed n hwhole _ _ => exact Op.direction_of_whole hwhole
  | acceptedOnce data n hop _ _ => rw [hop]; rfl
  | eofStored => exact Or.inr (Or.inr ⟨rfl, haims⟩)
  | closing stage first error => exact haims.elim
  | released outcome => exact haims
  | _ => trivial

/-- A drop does no more. -/
theorem acts_of_drop (haims : call.op.Aims call.pc) (h : call.drop = some effect) :
    call.op.Acts effect := by
  unfold Call.drop at h
  split at h
  · cases h; trivial
  · next hpc => cases h; rwa [hpc] at haims
  · next hpc => cases h; rwa [hpc] at haims
  · exact absurd h.symm (Option.some_ne_none _)

/-! ### The shared state from one direction -/

variable {d : Direction}

theorem Direction.eq_of_ne {d' : Direction} (h : some d' ≠ some d.other) : d' = d := by
  cases d <;> cases d' <;> first | rfl | exact absurd rfl h

theorem Shared.only_closed (sh : Shared ι) (d : Direction) :
    (sh.only d).state.closed = sh.state.closed := by
  cases d <;> rfl

theorem Shared.only_closeToken (sh : Shared ι) (d : Direction) :
    (sh.only d).closeToken = sh.closeToken := by
  cases d <;> rfl

theorem Shared.only_stream (sh : Shared ι) (d : Direction) : (sh.only d).stream = sh.stream := by
  cases d <;> rfl

/-- The flags an operation looks at are those of its own direction. -/
theorem Shared.only_load (sh : Shared ι) (hdir : op.direction ≠ some d.other) {flag : Flag}
    (hflag : flag = .closed ∨ flag = .paused ∨ (flag = op.flag ∧ op.direction.isSome = true)) :
    (sh.only d).state.load flag = sh.state.load flag := by
  rcases hflag with rfl | rfl | ⟨rfl, hsome⟩
  · cases d <;> rfl
  · cases d <;> rfl
  · cases d <;> cases op <;>
      first | rfl | exact absurd rfl hdir | exact absurd hsome Bool.false_ne_true

theorem Shared.only_gate (sh : Shared ι) (hdir : op.direction ≠ some d.other)
    (hgated : op.gated = true) : (sh.only d).gate op = sh.gate op := by
  cases d <;> cases op <;>
    first | rfl | exact absurd rfl hdir | exact absurd hgated Bool.false_ne_true

theorem Shared.only_giveUp (sh : Shared ι) (hdir : op.direction ≠ some d.other) (choice : Choice) :
    op.giveUp (sh.only d) choice = op.giveUp sh choice := by
  cases choice with
  | closeToken => simp only [Op.giveUp, sh.only_closeToken]
  | readShutdownToken =>
    cases hreads : op.reads with
    | false => simp only [Op.giveUp, hreads, Bool.false_and]
    | true =>
      rw [Op.direction_of_reads hreads] at hdir
      obtain rfl := Direction.eq_of_ne hdir
      rfl
  | _ => rfl

theorem Shared.only_interrupted (sh : Shared ι) (hdir : op.direction ≠ some d.other) (w : ℕ)
    (choice : Choice) : op.interrupted (sh.only d) w choice = op.interrupted sh w choice := by
  have hgive := sh.only_giveUp hdir choice
  cases op with
  | send data =>
    cases choice <;>
      first | exact hgive | simp only [Op.interrupted, sh.only_closeToken]
  | sendTimeout data timeout =>
    cases choice <;>
      first | exact hgive | simp only [Op.interrupted, sh.only_closeToken]
  | _ => exact hgive

/-- **A call sees its own direction alone.** -/
theorem Call.poll_only [DecidableEq ι] (sh : Shared ι) (id : ι)
    (hdir : call.op.direction ≠ some d.other) (haims : call.op.Aims call.pc) (choice : Choice) :
    call.poll (sh.only d) id choice = call.poll sh id choice := by
  obtain ⟨op, pc, w⟩ := call
  dsimp only at hdir haims
  have hgive := sh.only_giveUp hdir choice
  cases pc with
  | eof b =>
    have hread := Op.direction_of_reads haims
    rw [hread] at hdir
    obtain rfl := Direction.eq_of_ne hdir
    cases choice <;> rfl
  | ensure b flag =>
    have hsome : op.direction.isSome = true := by
      have hgated := haims.1
      cases op <;> first | rfl | exact absurd hgated Bool.false_ne_true
    have hload := sh.only_load hdir (haims.2.imp_right fun h => h.imp_right fun h => ⟨h, hsome⟩)
    cases choice <;> first | rfl | simp only [Call.poll, hload]
  | idle b flag =>
    have hload := sh.only_load hdir (haims.2.2.imp_right Or.inr)
    cases choice <;> first | rfl | simp only [Call.poll, hload]
  | gate => cases choice <;> first | rfl | simp only [Call.poll, hgive]
  | gateWait =>
    have hgate := sh.only_gate hdir haims
    cases choice with
    | gate => simp only [Call.poll, hgate]
    | timeout => rfl
    | _ => simp only [Call.poll, hgive]
  | streamClosed => cases choice <;> first | rfl | simp only [Call.poll, sh.only_closed]
  | stream => cases choice <;> first | rfl | simp only [Call.poll, sh.only_stream]
  | io => simp only [Call.poll, sh.only_interrupted hdir]
  | closing stage first error => exact haims.elim
  | _ => cases choice <;> rfl

/-- What an operation does is the same from its own direction, -/
theorem Shared.only_perform [DecidableEq ι] (sh : Shared ι) (id : ι)
    (hdir : op.direction ≠ some d.other) (hacts : op.Acts effect) :
    (sh.perform id op effect).only d = (sh.only d).perform id op effect := by
  have honGate : ∀ f, op.gated = true → (sh.onGate op f).only d = (sh.only d).onGate op f := by
    intro f hgated
    cases d <;> cases op <;>
      first | rfl | exact absurd rfl hdir | exact absurd hgated Bool.false_ne_true
  cases effect with
  | none => rfl
  | store flag v =>
    rcases hacts with ⟨rfl, -⟩ | ⟨rfl, hsome⟩ | ⟨rfl, hreads⟩
    · cases d <;> rfl
    · cases d <;> cases op <;>
        first | rfl | exact absurd rfl hdir | exact absurd hsome Bool.false_ne_true
    · rw [Op.direction_of_reads hreads] at hdir
      obtain rfl := Direction.eq_of_ne hdir
      rfl
  | cancelClose => exact hacts.elim
  | cancelRead =>
    obtain rfl : op = .shutdownRead := hacts
    obtain rfl := Direction.eq_of_ne hdir
    rfl
  | takeStream => exact hacts.elim
  | request => exact honGate _ hacts
  | leave => exact honGate _ hacts
  | write bytes =>
    rw [show op.direction = some .write from hacts] at hdir
    obtain rfl := Direction.eq_of_ne hdir
    rfl

/-- and what the operations of the other direction do is nothing. -/
theorem Shared.only_perform_other [DecidableEq ι] (sh : Shared ι) (id : ι)
    (hdir : op.direction = some d.other) (hacts : op.Acts effect) :
    (sh.perform id op effect).only d = sh.only d := by
  have hread : op.direction = some .read → d = .write := by
    intro h
    cases d with
    | read => exact Direction.noConfusion (Option.some.inj (hdir.symm.trans h))
    | write => rfl
  have hwrite : op.direction = some .write → d = .read := by
    intro h
    cases d with
    | read => rfl
    | write => exact Direction.noConfusion (Option.some.inj (hdir.symm.trans h))
  have honGate : ∀ f, op.gated = true → (sh.onGate op f).only d = sh.only d := by
    intro f hgated
    rw [Shared.onGate]
    cases hreads : op.reads with
    | true =>
      obtain rfl := hread (Op.direction_of_reads hreads)
      rfl
    | false =>
      obtain rfl := hwrite (Op.direction_of_gated hgated hreads)
      rfl
  cases effect with
  | none => rfl
  | store flag v =>
    rcases hacts with ⟨-, hnone⟩ | ⟨rfl, -⟩ | ⟨rfl, hreads⟩
    · exact absurd (hdir.symm.trans hnone) (Option.some_ne_none _)
    · cases hop : op.direction with
      | none => exact absurd (hdir.symm.trans hop) (Option.some_ne_none _)
      | some d' =>
        cases d' with
        | read =>
          obtain rfl := hread hop
          rw [Op.flag_of_direction hop]
          rfl
        | write =>
          obtain rfl := hwrite hop
          rw [Op.flag_of_direction hop]
          rfl
    · obtain rfl := hread (Op.direction_of_reads hreads)
      rfl
  | cancelClose => exact hacts.elim
  | cancelRead =>
    obtain rfl : op = .shutdownRead := hacts
    obtain rfl := hread rfl
    rfl
  | takeStream => exact hacts.elim
  | request => exact honGate _ hacts
  | leave => exact honGate _ hacts
  | write bytes =>
    obtain rfl := hwrite hacts
    rfl

/-! ### Undisturbed steps -/

/-- Nothing is about to close the connection. -/
def Core.Undisturbed (core : Core ι) : Prop :=
  ∀ id call, core.calls id = some call → call.op ≠ .close ∧ call.op.Aims call.pc

/-- The raw stream takes the connection down only by a failure, a zero write or a deadline. -/
theorem pollIo_ne_closing (hop : op ≠ .close) (h : pollIo op w choice = some (pc', w', effect))
    (hfail : ∀ text, choice ≠ .fail text) (hzero : choice ≠ .accept 0)
    (htimeout : choice ≠ .timeout) (stage : CloseStage) (first : Bool) (error : Option Error) :
    pc' ≠ .closing stage first error := by
  have hsend : ∀ data, pollSend data w choice = some (pc', w', effect) →
      pc' ≠ .closing stage first error := by
    intro data h
    cases choice with
    | accept n =>
      rw [pollSend] at h
      split_ifs at h with hn hle hlt
      · exact absurd (congrArg Choice.accept hn) hzero
      · cases h; exact PC.noConfusion
      · cases h; exact PC.noConfusion
    | fail text => exact absurd rfl (hfail text)
    | _ => exact absurd h.symm (Option.some_ne_none _)
  unfold pollIo at h
  split at h
  case h_1 =>
    split_ifs at h
    · cases h; exact PC.noConfusion
    · cases h; exact PC.noConfusion
  case h_2 =>
    split_ifs at h with hn
    · exact absurd (congrArg Choice.accept hn) hzero
    · cases h; exact PC.noConfusion
  case h_3 => exact hsend _ h
  case h_4 => exact hsend _ (pollSendTimeout_eq _ w htimeout ▸ h)
  case h_5 => cases h; exact PC.noConfusion
  case h_6 => cases h; exact PC.noConfusion
  case h_7 => cases h; exact PC.noConfusion
  case h_8 => exact absurd rfl hop
  case h_13 => exact absurd h.symm (Option.some_ne_none _)
  all_goals exact absurd rfl (hfail _)

theorem Polled.ne_closing (h : Polled sh id op pc w effect pc' w') (hop : op ≠ .close)
    (haims : op.Aims pc) (hio : pc ≠ .io) (stage : CloseStage) (first : Bool)
    (error : Option Error) : pc' ≠ .closing stage first error := by
  have hfinish : ∀ {b outcome}, PC.finish b outcome ≠ .closing stage first error := by
    intro b outcome
    cases b <;> exact PC.noConfusion
  cases h with
  | entered =>
    rcases op.enter_cases with ⟨v, h, -⟩ | ⟨h, -⟩ | h | ⟨h, -⟩ | ⟨-, h⟩
    · rw [h]; exact PC.noConfusion
    · rw [h]; exact PC.noConfusion
    · rw [h]; exact PC.noConfusion
    · rw [h]; exact PC.noConfusion
    · exact absurd h hop
  | eof b _ => exact hfinish
  | refused b flag _ => exact hfinish
  | passed b flag _ =>
    rcases op.afterEnsure_cases b flag with ⟨next, h⟩ | ⟨h, -⟩ | ⟨-, ⟨h, -⟩ | h⟩ <;> simp [h]
  | idle b flag _ => exact hfinish
  | busy b flag _ => cases op <;> cases flag <;> cases b <;> exact PC.noConfusion
  | granted _ => cases op <;> exact PC.noConfusion
  | stored hstored =>
    cases Op.stores_of_stored hstored <;> exact PC.noConfusion
  | failed e _ => exact absurd rfl hio
  | closing stage first error => exact haims.elim
  | _ => exact PC.noConfusion

theorem ne_closing_of_poll [DecidableEq ι] (hop : call.op ≠ .close) (haims : call.op.Aims call.pc)
    (h : call.poll sh id choice = some (call', effect)) (hfail : ∀ text, choice ≠ .fail text)
    (hzero : choice ≠ .accept 0) (htimeout : call.pc = .io → choice ≠ .timeout)
    (stage : CloseStage) (first : Bool) (error : Option Error) :
    call'.pc ≠ .closing stage first error := by
  intro hclosing
  by_cases hio : call.pc = .io
  · obtain ⟨op, pc, w⟩ := call
    obtain rfl : pc = .io := hio
    simp only [Call.poll] at h
    split at h
    · cases h; exact PC.noConfusion hclosing
    · obtain ⟨⟨pc', w', effect'⟩, hpoll, hcall⟩ := Option.map_eq_some_iff.mp h
      cases hcall
      exact pollIo_ne_closing hop hpoll hfail hzero (htimeout rfl) _ _ _ hclosing
  · have hpolled := (polled_of_poll h).2
    exact hpolled.ne_closing hop haims hio _ _ _ hclosing

/-- **An undisturbed step**: whose it is, and what it does. -/
theorem Core.Undisturbed.step [DecidableEq ι] (hcore : core.Undisturbed)
    (hlabel : undisturbed core label = true) (h : core.step label = some core') :
    ∃ call effect, core'.calls = Function.update core.calls label.caller (some call) ∧
      core'.shared = core.shared.perform label.caller call.op effect ∧ call.op.Acts effect ∧
      call.op ≠ .close ∧ call.op.Aims call.pc ∧
      ∀ c, core.calls label.caller = some c → call.op = c.op := by
  cases label with
  | call id op =>
    simp only [Core.step] at h
    split at h
    · next hnone =>
      cases h
      refine ⟨{ op }, .none, rfl, rfl, trivial, ?_, trivial, ?_⟩
      · rintro rfl
        exact Bool.false_ne_true hlabel
      · intro c hc
        exact absurd (hc.symm.trans hnone) (Option.some_ne_none _)
    · exact absurd h.symm (Option.some_ne_none _)
  | poll id choice =>
    simp only [Core.step] at h
    split at h
    · exact absurd h.symm (Option.some_ne_none _)
    · next call hcall =>
      obtain ⟨⟨call', effect⟩, hpoll, hcore'⟩ := Option.map_eq_some_iff.mp h
      cases hcore'
      obtain ⟨hop, haims⟩ := hcore id call hcall
      obtain ⟨hop', hpolled⟩ := polled_of_poll hpoll
      have hclosing := ne_closing_of_poll hop haims hpoll
        (by rintro text rfl; exact Bool.false_ne_true hlabel)
        (by rintro rfl; exact Bool.false_ne_true hlabel)
        (by
          rintro hio rfl
          obtain ⟨op, pc, w⟩ := call
          obtain rfl : pc = .io := hio
          simp only [undisturbed, hcall] at hlabel
          exact Bool.false_ne_true hlabel)
      refine ⟨call', effect, rfl, ?_, ?_, ?_, ?_, ?_⟩
      · rw [hop']
        rfl
      · rw [hop']
        exact hpolled.acts haims
      · rwa [hop']
      · rw [hop']
        exact hpolled.aims haims hclosing
      · intro c hc
        rw [hop', Option.some.inj (hcall.symm.trans hc)]
  | drop id =>
    simp only [Core.step] at h
    split at h
    · exact absurd h.symm (Option.some_ne_none _)
    · next call hcall =>
      obtain ⟨effect, hdrop, hcore'⟩ := Option.map_eq_some_iff.mp h
      cases hcore'
      obtain ⟨hop, haims⟩ := hcore id call hcall
      refine ⟨{ call with pc := .dropped }, effect, rfl, rfl, ?_, hop, trivial, ?_⟩
      · have hacts := acts_of_drop haims hdrop
        exact hacts
      · intro c hc
        rw [Option.some.inj (hcall.symm.trans hc)]

theorem Core.Undisturbed.of_step [DecidableEq ι] (hcore : core.Undisturbed)
    (hlabel : undisturbed core label = true) (h : core.step label = some core') :
    core'.Undisturbed := by
  obtain ⟨call, effect, hcalls, -, -, hop, haims, -⟩ := hcore.step hlabel h
  intro i c hc
  rw [hcalls] at hc
  by_cases hi : i = label.caller
  · rw [hi, Function.update_self, Option.some.injEq] at hc
    rw [← hc]
    exact ⟨hop, haims⟩
  · rw [Function.update_of_ne hi] at hc
    exact hcore i c hc

/-! ### One direction of a run -/

theorem Core.only_calls (core : Core ι) (d : Direction) (id : ι) :
    (core.only d).calls id = (core.calls id).filter (Call.seenFrom d) := rfl

theorem Call.seenFrom_eq_true : call.seenFrom d = true ↔ call.op.direction ≠ some d.other := by
  simp [Call.seenFrom]

/-- What one direction sees when a call of its own has stepped, -/
theorem Core.only_update [DecidableEq ι] (sh : Shared ι) (core : Core ι) (id : ι)
    (hseen : call.seenFrom d = true) :
    (Core.mk sh (Function.update core.calls id (some call))).only d
      = ⟨sh.only d, Function.update (core.only d).calls id (some call)⟩ := by
  refine congrArg (Core.mk (sh.only d)) (funext fun i => ?_)
  by_cases hi : i = id
  · subst hi
    simp [hseen]
  · simp [Function.update_of_ne hi, Core.only]

/-- and when one of the other has. -/
theorem Core.only_update_other [DecidableEq ι] (sh : Shared ι) (core : Core ι) (id : ι)
    (hseen : call.seenFrom d = false) (hold : ∀ c, core.calls id = some c → call.op = c.op) :
    (Core.mk sh (Function.update core.calls id (some call))).only d
      = ⟨sh.only d, (core.only d).calls⟩ := by
  refine congrArg (Core.mk (sh.only d)) (funext fun i => ?_)
  rw [Core.only_calls]
  dsimp only
  by_cases hi : i = id
  · subst hi
    rw [Function.update_self, Option.filter_some, hseen]
    cases h : core.calls i with
    | none => rfl
    | some c =>
      have hc : c.seenFrom d = false := by rwa [Call.seenFrom, ← hold c h]
      rw [Option.filter_some, hc]
      rfl
  · rw [Function.update_of_ne hi]

/-- The calls of a connection are among those of another, with their operations. -/
def Core.Within (core core' : Core ι) : Prop :=
  ∀ id call, core.calls id = some call → ∃ call', core'.calls id = some call' ∧ call'.op = call.op

/-- No step makes a call go away or changes its operation. -/
theorem Core.within_of_step [DecidableEq ι] (h : core.step label = some core') :
    core.Within core' := by
  intro id call hcall
  obtain ⟨i, c, hstepped⟩ := Core.stepped h
  obtain ⟨hcalls, hold⟩ := hstepped.calls
  rw [hcalls]
  by_cases hi : id = i
  · subst hi
    exact ⟨c, Function.update_self .., (hold call hcall).2⟩
  · exact ⟨call, by rwa [Function.update_of_ne hi], rfl⟩

theorem Core.Within.trans {core'' : Core ι} (h : core.Within core') (h' : core'.Within core'') :
    core.Within core'' := by
  intro id call hcall
  obtain ⟨c, hc, hop⟩ := h id call hcall
  obtain ⟨c', hc', hop'⟩ := h' id c hc
  exact ⟨c', hc', hop'.trans hop⟩

/-- Whether a step is kept can be told at any later point. -/
theorem Core.Within.keeps [DecidableEq ι] {last : Core ι} (hwithin : core'.Within last)
    (h : core.step label = some core') : core'.keeps d label = last.keeps d label := by
  obtain ⟨id, call, hstepped⟩ := Core.stepped h
  have hcaller : label.caller = id := by cases hstepped <;> rfl
  have hcall : core'.calls id = some call := by rw [hstepped.calls.1, Function.update_self]
  obtain ⟨c, hc, hop⟩ := hwithin id call hcall
  rw [Core.keeps, Core.keeps, hcaller, hcall, hc, Option.all_some, Option.all_some, Call.seenFrom,
    Call.seenFrom, hop]

/-- **A step of the other direction** is not seen. -/
theorem Core.step_deleted [DecidableEq ι] (hcore : core.Undisturbed)
    (hlabel : undisturbed core label = true) (h : core.step label = some core')
    (hkeeps : core'.keeps d label = false) : core'.only d = core.only d := by
  obtain ⟨call, effect, hcalls, hshared, hacts, -, -, hold⟩ := hcore.step hlabel h
  rw [Core.keeps, hcalls, Function.update_self] at hkeeps
  have hdir : call.op.direction = some d.other := by simpa [Call.seenFrom] using hkeeps
  obtain ⟨sh, calls⟩ := core'
  obtain rfl : calls = _ := hcalls
  rw [Core.only_update_other sh core _ hkeeps hold, show sh = _ from hshared,
    Shared.only_perform_other _ _ hdir hacts]
  rfl

/-- **A step that is kept** is the same step of what one direction sees. -/
theorem Core.step_kept [DecidableEq ι] (hcore : core.Undisturbed)
    (hlabel : undisturbed core label = true) (h : core.step label = some core')
    (hkeeps : core'.keeps d label = true) :
    undisturbed (core.only d) label = true ∧ (core.only d).step label = some (core'.only d) := by
  have hseen : ∀ c, core.calls label.caller = some c → c.seenFrom d = true := by
    intro c hc
    obtain ⟨call, -, hcalls, -, -, -, -, hold⟩ := hcore.step hlabel h
    rw [Core.keeps, hcalls, Function.update_self] at hkeeps
    rwa [Call.seenFrom, ← hold c hc]
  have hcall : (core.only d).calls label.caller = core.calls label.caller := by
    rw [Core.only_calls]
    cases h : core.calls label.caller with
    | none => rfl
    | some c => simp [hseen c h]
  cases label with
  | call id op =>
    refine ⟨by cases op <;> exact hlabel, ?_⟩
    simp only [Core.step, Label.caller] at h hcall ⊢
    split at h
    · next hnone =>
      cases h
      simp only [Core.keeps, Label.caller, Function.update_self] at hkeeps
      rw [hcall, hnone, Core.only_update _ _ _ hkeeps]
      rfl
    · exact absurd h.symm (Option.some_ne_none _)
  | poll id choice =>
    simp only [Core.step, Label.caller] at h hcall hseen ⊢
    split at h
    · exact absurd h.symm (Option.some_ne_none _)
    · next call hc =>
      obtain ⟨⟨call', effect⟩, hpoll, hcore'⟩ := Option.map_eq_some_iff.mp h
      cases hcore'
      have hown := hseen call hc
      have hdir := Call.seenFrom_eq_true.mp hown
      obtain ⟨hop, hpolled⟩ := polled_of_poll hpoll
      have haims := (hcore id call hc).2
      have hpoll' : call.poll (core.only d).shared id choice = some (call', effect) := by
        rw [← hpoll]
        exact Call.poll_only _ _ hdir haims _
      refine ⟨?_, ?_⟩
      · cases choice <;> first | exact hlabel | simpa only [undisturbed, hcall] using hlabel
      · rw [hcall, hc]
        dsimp only
        rw [hpoll', Core.only_update _ _ _ (by rwa [Call.seenFrom, hop]),
          Shared.only_perform _ _ hdir (hpolled.acts haims)]
        rfl
  | drop id =>
    refine ⟨rfl, ?_⟩
    simp only [Core.step, Label.caller] at h hcall hseen ⊢
    split at h
    · exact absurd h.symm (Option.some_ne_none _)
    · next call hc =>
      obtain ⟨effect, hdrop, hcore'⟩ := Option.map_eq_some_iff.mp h
      cases hcore'
      have hown := hseen call hc
      have hacts := acts_of_drop (hcore id call hc).2 hdrop
      rw [hcall, hc]
      dsimp only
      have hdropped : Call.seenFrom d { call with pc := .dropped } = true := hown
      rw [hdrop, Core.only_update _ _ _ hdropped,
        Shared.only_perform _ _ (Call.seenFrom_eq_true.mp hown) hacts]
      rfl

/-- **What one direction sees of a run** is the run without the calls of the other. -/
theorem Core.run_only [DecidableEq ι] {labels : List (Label ι)} (d : Direction)
    (h : runLabels Core.step undisturbed {} labels = some core) :
    runLabels Core.step undisturbed {} (labels.filter (core.keeps d)) = some (core.only d) := by
  have hstart : ({} : Core ι).only d = {} := by cases d <;> rfl
  have hundisturbed : ({} : Core ι).Undisturbed :=
    fun _ call hcall => absurd hcall.symm (Option.some_ne_none call)
  have hback : ∀ (s : Core ι) label s', s.step label = some s' → s'.Within core →
      s.Within core :=
    fun _ _ _ hstep hwithin => (Core.within_of_step hstep).trans hwithin
  have hrun := runLabels_filter (Core.only · d) (core.keeps d) Core.Undisturbed (Core.Within · core)
    hback (fun _ _ _ hinv hl hstep => hinv.of_step hl hstep)
    (fun _ _ _ hinv hwithin hl hstep hk =>
      Core.step_kept hinv hl hstep ((hwithin.keeps hstep).trans hk))
    (fun _ _ _ hinv hwithin hl hstep hk =>
      Core.step_deleted hinv hl hstep ((hwithin.keeps hstep).trans hk))
    h hundisturbed fun _ call hcall => ⟨call, hcall, rfl⟩
  rwa [hstart] at hrun

/-- **The two directions are independent.** Delete from a run every step of a writing call: what is
left is a run in which every other call is where it was, with the same outcome, and the flags of
the read direction are the same. Delete every step of a reading call: the same holds of the calls
and the flag of the write direction, and the same bytes were handed to the raw stream. -/
theorem directions_independent [DecidableEq ι] {labels : List (Label ι)}
    (h : runLabels Core.step undisturbed {} labels = some core) :
    (∃ core', runLabels Core.step undisturbed {} (labels.filter (core.keeps .read)) = some core' ∧
      (∀ id call, core'.calls id = some call ↔
        core.calls id = some call ∧ call.op.direction ≠ some .write) ∧
      core'.shared.state.readShutdown = core.shared.state.readShutdown ∧
      core'.shared.state.peerSentEof = core.shared.state.peerSentEof) ∧
    (∃ core', runLabels Core.step undisturbed {} (labels.filter (core.keeps .write)) = some core' ∧
      (∀ id call, core'.calls id = some call ↔
        core.calls id = some call ∧ call.op.direction ≠ some .read) ∧
      core'.shared.wire = core.shared.wire ∧
      core'.shared.state.writeShutdown = core.shared.state.writeShutdown) := by
  have hcalls : ∀ d : Direction, ∀ id call, (core.only d).calls id = some call ↔
      core.calls id = some call ∧ call.op.direction ≠ some d.other := by
    intro d id call
    rw [Core.only_calls, Option.filter_eq_some_iff, Call.seenFrom_eq_true]
  exact ⟨⟨core.only .read, Core.run_only .read h, hcalls .read, rfl, rfl⟩,
    ⟨core.only .write, Core.run_only .write h, hcalls .write, rfl, rfl⟩⟩

/-- A `send` and a `receive` that meets the peer's end of stream, step by step in turns. -/
def bothWays : List (Label ℕ) :=
  [Label.call 0 (.send [1, 2]), .call 1 (.receive 4), .poll 1 .go] ++
    (List.replicate 4 [Label.poll 0 .go, .poll 1 .go]).flatten ++
    [Label.poll 1 .gate, .poll 0 .gate, .poll 0 .gate, .poll 1 .gate, .poll 1 .go] ++
    (List.replicate 5 [Label.poll 0 .go, .poll 1 .go]).flatten ++
    [Label.poll 1 (.read []), .poll 0 (.accept 2), .poll 1 .go, .poll 0 .go, .poll 1 .go]

def bothWaysCore : Core ℕ := (runLabels Core.step undisturbed {} bothWays).getD {}

theorem directions_independent_bothWays :
    (∃ core', runLabels Core.step undisturbed {} (bothWays.filter (bothWaysCore.keeps .read))
        = some core' ∧ core'.shared.state.peerSentEof = true ∧
      ∃ call, core'.calls 1 = some call ∧ call.pc = .done (.ok .endOfStream)) ∧
    (∃ core', runLabels Core.step undisturbed {} (bothWays.filter (bothWaysCore.keeps .write))
        = some core' ∧ core'.shared.wire = [1, 2] ∧
      ∃ call, core'.calls 0 = some call ∧ call.pc = .done (.ok .unit)) := by
  obtain ⟨⟨r, hr, hrcalls, -, heof⟩, ⟨w, hw, hwcalls, hwire, -⟩⟩ := directions_independent
    (show runLabels Core.step undisturbed {} bothWays = some bothWaysCore from rfl)
  refine ⟨⟨r, hr, heof, ⟨.receive 4, .done (.ok .endOfStream), 0⟩, ?_, rfl⟩,
    ⟨w, hw, hwire, ⟨.send [1, 2], .done (.ok .unit), 2⟩, ?_, rfl⟩⟩
  · exact (hrcalls _ _).mpr ⟨rfl, by decide⟩
  · exact (hwcalls _ _).mpr ⟨rfl, by decide⟩

end Transport

end Taunicorn
