import Taunicorn.Lib.Conversation
import Taunicorn.Transport.Link

/-!
# Programs over two connections

A task on each side of a link runs a program: it makes one call after the other on its own
connection, and goes on with what the call returns. A task can be abandoned while a call is
pending, which drops the call. Beside the task, anybody may use the connection for whatever neither
reads nor writes: pause it, shut a direction down, flush it or close it.

Under a call there are a gate, five flags, two tokens, a slot and a raw stream that takes bytes in
pieces. What is left of it for the program is a step of a lossy conversation: `Tasks.view` shows
each program where its pending call has brought it, with what is in flight in both directions, and
every step of the link is a step of that view or leaves it.

## Which error

The view forgets which error a call has failed with, and whether anything followed it: a fault is
one of the breaks. The end of the stream is not a fault. It breaks a program only where the other
side has nothing in flight, and that is an invariant of the link.

## Main results

* `Receiving.fixes`, `Polled.sends` — what a step of a call is for its program
* `turns_of_poll` — the same with the bytes in flight
* `tasks_refine` — every run of two tasks is a lossy conversation of their programs
-/

namespace Taunicorn

namespace Transport

open StreamProg

variable {ν α : Type}

/-! ### Tasks -/

/-- The call that a program makes next. -/
def opOf : StreamProg Error ν α → Option Op
  | .receive max _ => some (.receive max)
  | .send bytes _ => some (.send bytes)
  | _ => none

/-- What follows a call in the program. An error is the failure of the program. -/
def answer (p : StreamProg Error ν α) (outcome : Outcome) : Option (StreamProg Error ν α) :=
  match p, outcome with
  | .receive _ next, .ok (.data chunk) => some (next (.data chunk))
  | .receive _ next, .ok .endOfStream => some (next .endOfStream)
  | .receive _ _, .error e => some (.fail e)
  | .send _ next, .ok .unit => some next
  | .send _ _, .error e => some (.fail e)
  | _, _ => none

theorem asks_of_answer {p p' : StreamProg Error ν α} {outcome : Outcome} (hp : p.Asks)
    (h : answer p outcome = some p') : p'.Asks := by
  unfold answer at h
  split at h
  · exact Option.some.inj h ▸ hp.2 _
  · exact Option.some.inj h ▸ hp.2 _
  · exact Option.some.inj h ▸ trivial
  · exact Option.some.inj h ▸ hp
  · exact Option.some.inj h ▸ trivial
  · exact absurd h.symm (Option.some_ne_none _)

/-- What is left of a program, how many of its calls have returned, and whether the next one is
pending. -/
structure Task (ν α : Type) where
  prog : StreamProg Error ν α
  made : ℕ := 0
  waits : Bool := false

/-- A task on each side of a link. The calls of a task are numbered; the others have names of their
own. -/
structure Tasks (κ ν α : Type) where
  link : Link (ℕ ⊕ κ) := {}
  task : Side → Task ν α

inductive TaskLabel (κ : Type) where
  | note (side : Side)
  | call (side : Side)
  | poll (side : Side) (choice : Choice)
  | answer (side : Side)
  /-- The task is dropped, and with it its pending call. -/
  | abandon (side : Side)
  /-- Somebody else uses the connection. -/
  | beside (side : Side) (label : Label κ)
  | release (side : Side)
  | discard (side : Side)

variable {κ : Type}

def TaskLabel.side : TaskLabel κ → Side
  | .note side => side
  | .call side => side
  | .poll side _ => side
  | .answer side => side
  | .abandon side => side
  | .beside side _ => side
  | .release side => side
  | .discard side => side

/-- A call of somebody else. -/
def Label.beside : Label κ → Label (ℕ ⊕ κ)
  | .call id op => .call (.inr id) op
  | .poll id choice => .poll (.inr id) choice
  | .drop id => .drop (.inr id)

/-- An operation that neither reads nor writes. -/
def Op.Aside (op : Op) : Prop := op.reads = false ∧ op.buffer = []

/-- Only such operations are called. -/
def Label.Aside : Label κ → Prop
  | .call _ op => op.Aside
  | _ => True

section Step

variable [DecidableEq κ]

/-- A step of the link, and of a task with it. -/
def Tasks.move (s : Tasks κ ν α) (side : Side) (task : Task ν α) (label : LinkLabel (ℕ ⊕ κ)) :
    Option (Tasks κ ν α) :=
  (s.link.step label).map fun link => { link, task := Function.update s.task side task }

/-- **One step of two tasks.** -/
def Tasks.step (s : Tasks κ ν α) : TaskLabel κ → Option (Tasks κ ν α)
  | .note side =>
    match (s.task side).prog with
    | .note _ next =>
      some { s with task := Function.update s.task side { s.task side with prog := next } }
    | _ => none
  | .call side =>
    if (s.task side).waits then none
    else (opOf (s.task side).prog).bind fun op =>
      s.move side { s.task side with waits := true }
        (.act side (.call (.inl (s.task side).made) op))
  | .poll side choice =>
    if (s.task side).waits then
      s.move side (s.task side) (.act side (.poll (.inl (s.task side).made) choice))
    else none
  | .answer side =>
    if (s.task side).waits then
      ((s.link.core side).calls (.inl (s.task side).made)).bind fun call =>
        match call.pc with
        | .done outcome => (Transport.answer (s.task side).prog outcome).map fun next =>
          { s with task := Function.update s.task side ⟨next, (s.task side).made + 1, false⟩ }
        | _ => none
    else none
  | .abandon side =>
    if (s.task side).waits then
      s.move side (s.task side) (.act side (.drop (.inl (s.task side).made)))
    else none
  | .beside side label => s.move side (s.task side) (.act side label.beside)
  | .release side => s.move side (s.task side) (.release side)
  | .discard side => s.move side (s.task side) (.discard side)

end Step

/-- The environment of the link, and nobody else reads or writes. -/
def Tasks.Ready (s : Tasks κ ν α) : TaskLabel κ → Prop
  | .poll side choice => s.link.Ready (.act side (.poll (.inl (s.task side).made) choice))
  | .beside side label => s.link.Ready (.act side label.beside) ∧ label.Aside
  | .release side => s.link.Ready (.release side)
  | .discard side => s.link.Ready (.discard side)
  | _ => True

/-- Two programs before they start. -/
def Tasks.start (p q : StreamProg Error ν α) : Tasks κ ν α where
  task
    | .left => { prog := p }
    | .right => { prog := q }

/-! ### The view -/

def PC.outcome : PC → Option Outcome
  | .unwind outcome => some outcome
  | .done outcome => some outcome
  | _ => none

theorem Call.outcome_eq (call : Call) : call.outcome = call.pc.outcome := by
  unfold Call.outcome PC.outcome
  cases call.pc <;> rfl

@[simp] theorem PC.outcome_finish (b : Bool) (outcome : Outcome) :
    (PC.finish b outcome).outcome = some outcome := by cases b <;> rfl

/-- Where its pending call has brought a program. -/
def Call.rest (call : Call) (p : StreamProg Error ν α) : StreamProg Error ν α :=
  match call.pc.outcome, p with
  | some outcome, p => (answer p outcome).getD p
  | none, .send bytes next => .send (bytes.drop call.written) next
  | none, p => p

theorem Call.rest_of_some {call : Call} {outcome : Outcome} (h : call.pc.outcome = some outcome)
    (p : StreamProg Error ν α) : call.rest p = (answer p outcome).getD p := by
  simp only [Call.rest, h]

theorem Call.rest_receive {call : Call} (h : call.pc.outcome = none) {max : ℕ}
    {next : Received → StreamProg Error ν α} :
    call.rest (.receive max next) = .receive max next := by
  simp only [Call.rest, h]

theorem Call.rest_send {call : Call} (h : call.pc.outcome = none) {bytes : List UInt8}
    {next : StreamProg Error ν α} :
    call.rest (.send bytes next) = .send (bytes.drop call.written) next := by
  simp only [Call.rest, h]

/-- Where its outcome is the same, and what it has handed over, a call has brought its program to
the same place. -/
theorem Call.rest_congr {call call' : Call} (h : call'.pc.outcome = call.pc.outcome)
    (hwritten : call'.written = call.written) (p : StreamProg Error ν α) :
    call'.rest p = call.rest p := by
  unfold Call.rest
  rw [h, hwritten]

def Task.rest (core : Core (ℕ ⊕ κ)) (task : Task ν α) : StreamProg Error ν α :=
  if task.waits then
    (core.calls (.inl task.made)).elim task.prog fun call => call.rest task.prog
  else task.prog

theorem Task.rest_of_idle {core : Core (ℕ ⊕ κ)} {task : Task ν α} (h : task.waits = false) :
    task.rest core = task.prog := by
  rw [rest, if_neg (by simp [h])]

/-- **The view.** -/
def Tasks.view (s : Tasks κ ν α) : Duplex Error ν α α :=
  .ofSides (fun side => (s.task side).rest (s.link.core side)) s.link.flight

/-! ### What a step of a call is for its program -/

section Calls

variable {ι : Type} {sh : Shared ι} {id : ι} {max w w' : ℕ} {pc pc' : PC} {choice : Choice}
  {effect : Effect} {data : List UInt8}

/-- What a step of a `receive` is for its program, with the bytes it takes. -/
inductive Fixes (max : ℕ) (pc : PC) : PC → List UInt8 → Prop
  | still {pc' : PC} : pc'.outcome = pc.outcome → Fixes max pc pc' []
  | error {pc' : PC} (e : Error) : pc.outcome = none → pc'.outcome = some (.error e) →
      Fixes max pc pc' []
  | ended {pc' : PC} : pc.outcome = none → pc'.outcome = some (.ok .endOfStream) →
      Fixes max pc pc' []
  | data {pc' : PC} {chunk : List UInt8} : pc.outcome = none → chunk ≠ [] → chunk.length ≤ max →
      pc'.outcome = some (.ok (.data chunk)) → Fixes max pc pc' chunk

theorem Receiving.fixes (h : Receiving sh id max pc choice effect pc') (hmax : 0 < max) :
    Fixes max pc pc' choice.chunk := by
  cases h with
  | empty h0 => omega
  | eof b _ => exact .ended rfl (PC.outcome_finish b _)
  | refused b flag e => exact .error e rfl (PC.outcome_finish b _)
  | passed b flag => exact .still (by cases b <;> cases flag <;> rfl)
  | gaveUp choice e hchunk => exact hchunk ▸ .error e rfl rfl
  | withdrew choice e hchunk => exact hchunk ▸ .error e rfl rfl
  | closedSeen e => exact .error e rfl rfl
  | noStream e => exact .error e rfl rfl
  | interrupted choice e hchunk => exact hchunk ▸ .error e rfl rfl
  | read chunk hne hlen => exact .data rfl hne hlen rfl
  | failed choice e hchunk => exact hchunk ▸ .still rfl
  | eofStored => exact .ended rfl rfl
  | closing stage first e =>
    cases stage with
    | writeShutdown =>
      cases first with
      | false => exact .error e rfl rfl
      | true => exact .still rfl
    | stream => exact .error e rfl rfl
    | _ => exact .still rfl
  | _ => exact .still rfl

theorem Receiving.quiet (h : Receiving sh id max pc choice effect pc') (bytes : List UInt8) :
    effect ≠ .write bytes := by
  cases h with
  | closing stage first e => cases stage <;> simp [pollClosing]
  | _ => simp

/-- What a step of a `send` is for its program. -/
inductive Sends (data : List UInt8) (pc : PC) (w : ℕ) : Effect → PC → ℕ → Prop
  | still {effect : Effect} {pc' : PC} : (∀ bytes, effect ≠ .write bytes) →
      pc'.outcome = pc.outcome → Sends data pc w effect pc' w
  | error {effect : Effect} {pc' : PC} (e : Error) : (∀ bytes, effect ≠ .write bytes) →
      pc.outcome = none → pc'.outcome = some (.error e) → Sends data pc w effect pc' w
  | empty {effect : Effect} {pc' : PC} : (∀ bytes, effect ≠ .write bytes) → pc.outcome = none →
      data = [] → pc'.outcome = some (.ok .unit) → Sends data pc w effect pc' w
  | part {pc' : PC} (n : ℕ) : pc.outcome = none → 0 < n → w + n < data.length →
      pc'.outcome = none → Sends data pc w (.write ((data.drop w).take n)) pc' (w + n)
  | rest {pc' : PC} (n : ℕ) : pc.outcome = none → 0 < n → w + n = data.length →
      pc'.outcome = some (.ok .unit) → Sends data pc w (.write ((data.drop w).take n)) pc' (w + n)

theorem Polled.sends (h : Polled sh id (.send data) pc w effect pc' w')
    (htyped : (Op.send data).Typed pc) : Sends data pc w effect pc' w' := by
  cases h with
  | entered =>
    by_cases hdata : data = []
    · exact .empty (by simp) rfl hdata (by simp [Op.enter, hdata, PC.outcome])
    · exact .still (by simp) (by simp [Op.enter, hdata, PC.outcome])
  | eof b => exact absurd htyped Bool.false_ne_true
  | notEof b => exact absurd htyped Bool.false_ne_true
  | refused b flag _ => exact .error _ (by simp) rfl (PC.outcome_finish b _)
  | passed b flag _ => exact .still (by simp) (by cases b <;> cases flag <;> rfl)
  | idle b flag => exact .empty (by simp) rfl htyped.1 (PC.outcome_finish b _)
  | busy b flag => exact .still (by simp) (by cases flag <;> rfl)
  | gaveUp e => exact .error e (by simp) rfl rfl
  | withdrew e => exact .error e (by simp) rfl rfl
  | stored hstored => exact absurd hstored (by simp [Op.stored])
  | readCancelled => exact .empty (by simp) rfl htyped rfl
  | closedSeen e => exact .error e (by simp) rfl rfl
  | noStream e => exact .error e (by simp) rfl rfl
  | interrupted e => exact .error e (by simp) rfl rfl
  | accepted n _ hpos hlt => exact .part n rfl hpos hlt rfl
  | completed n _ hpos hlen => exact .rest n rfl hpos hlen rfl
  | acceptedOnce data n hop _ _ => exact absurd hop (by simp)
  | readEof hreads => exact absurd hreads Bool.false_ne_true
  | answered outcome _ hwhole => exact absurd hwhole (by simp [Op.whole])
  | eofStored => exact absurd htyped Bool.false_ne_true
  | closing stage first error =>
    cases error with
    | none => exact absurd (htyped rfl) (by simp)
    | some e =>
      cases stage with
      | writeShutdown =>
        cases first with
        | false => exact .error e (by simp [pollClosing]) rfl rfl
        | true => exact .still (by simp [pollClosing]) rfl
      | stream => exact .error e (by simp [pollClosing]) rfl rfl
      | _ => exact .still (by simp [pollClosing]) rfl
  | _ => exact .still (by simp) rfl

end Calls

/-! ### With the bytes in flight -/

section Turns

variable {ι : Type} [DecidableEq ι] {link link' : Link ι} {side : Side} {label : Label ι} {id : ι}
  {choice : Choice} {call : Call} {p : StreamProg Error ν α}

/-- What a step of a call does to the bytes in flight: it takes some at one end, and puts some at
the other. -/
theorem Link.flight_of_act (hinv : LinkInv link) (hready : link.Ready (.act side label))
    (h : link.step (.act side label) = some link') :
    ∃ core', (link.core side).step label = some core' ∧
      link'.core = Function.update link.core side core' ∧
      link.flight side.other = label.chunk ++ link'.flight side.other ∧
      ∀ bytes, core'.shared.wire = (link.core side).shared.wire ++ bytes →
        link'.flight side = link.flight side ++ bytes := by
  simp only [Link.step] at h
  split at h
  · exact absurd h.symm (Option.some_ne_none _)
  obtain ⟨core', hcore, rfl⟩ := Option.map_eq_some_iff.mp h
  have hne := side.other_ne
  refine ⟨core', hcore, rfl, ?_, fun bytes hwire => ?_⟩
  · have hchunk := List.prefix_iff_eq_append.mp hready.chunk
    rw [← hchunk]
    simp [Link.flight, Function.update_of_ne hne, List.drop_drop]
  · simp only [Link.flight, Function.update_self, Function.update_of_ne hne.symm, hwire]
    exact List.drop_append_of_le_length (hinv.taken_le side)

omit [DecidableEq ι] in
theorem Shared.perform_wire [DecidableEq ι] (sh : Shared ι) (id : ι) (op : Op) {effect : Effect}
    (hquiet : ∀ bytes, effect ≠ .write bytes) : (sh.perform id op effect).wire = sh.wire := by
  cases effect with
  | request => exact sh.onGate_wire op _
  | leave => exact sh.onGate_wire op _
  | write bytes => exact absurd rfl (hquiet bytes)
  | _ => rfl

/-- A call that is made, -/
theorem Core.of_call {core core' : Core ι} {op : Op} (h : core.step (.call id op) = some core') :
    core'.shared = core.shared ∧ core'.calls = Function.update core.calls id (some { op }) := by
  simp only [Core.step] at h
  split at h
  · obtain rfl := Option.some.inj h
    exact ⟨rfl, rfl⟩
  · exact absurd h.symm (Option.some_ne_none _)

/-- and one that is dropped. -/
theorem Core.of_drop {core core' : Core ι} (hcall : core.calls id = some call)
    (h : core.step (.drop id) = some core') :
    core'.shared.wire = core.shared.wire ∧
      (call.pc = .start ∨ call.pc = .gateWait ∨ call.pc = .io) ∧
      core'.calls id = some { call with pc := .dropped } := by
  simp only [Core.step, hcall, Option.map_eq_some_iff] at h
  obtain ⟨effect, hdrop, rfl⟩ := h
  obtain ⟨hpc, heffect⟩ := drop_eq_some hdrop
  refine ⟨Shared.perform_wire _ _ _ ?_, hpc, Function.update_self ..⟩
  rcases heffect with rfl | rfl <;> simp

/-- What a step on one side is for the program there: nothing, an operation, or a break. What is
known of the first and of the last is said by the two propositions. -/
inductive Answers (link link' : Link ι) (side : Side) (quiet broken : Prop)
    (p : StreamProg Error ν α) : StreamProg Error ν α → Prop
  | still {p' : StreamProg Error ν α} : quiet → p' = p →
      link'.flight side.other = link.flight side.other → link'.flight side = link.flight side →
      Answers link link' side quiet broken p p'
  | acts {p' : StreamProg Error ν α} :
      Acts p (link.flight side.other) (link.flight side) p' (link'.flight side.other)
        (link'.flight side) → Answers link link' side quiet broken p p'
  | breaks {p' : StreamProg Error ν α} : broken → Cuts p (link.flight side.other) p' →
      link'.flight side.other = link.flight side.other → link'.flight side = link.flight side →
      Answers link link' side quiet broken p p'

omit [DecidableEq ι] in
theorem Answers.mono {quiet quiet' broken broken' : Prop} {p' : StreamProg Error ν α}
    (h : Answers link link' side quiet broken p p') (hquiet : quiet → quiet')
    (hbroken : broken → broken') : Answers link link' side quiet' broken' p p' := by
  cases h with
  | still h hsame hin hout => exact .still (hquiet h) hsame hin hout
  | acts hacts => exact .acts hacts
  | breaks h hcuts hin hout => exact .breaks (hbroken h) hcuts hin hout

/-- A call that has failed, or has found the end of the stream. -/
def Call.Broken (call : Call) : Prop :=
  (∃ e, call.pc.outcome = some (.error e)) ∨ call.pc.outcome = some (.ok .endOfStream)

variable {call' : Call} {effect : Effect} {max : ℕ} {next : Received → StreamProg Error ν α}
  {data : List UInt8} {rest : StreamProg Error ν α}

omit [DecidableEq ι] in
/-- **A step of a pending `receive`.** -/
theorem answers_receive (hinv' : LinkInv link')
    (hcall' : (link'.core side).calls id = some call') (hop : call'.op = .receive max)
    (hfixes : Fixes max call.pc call'.pc choice.chunk)
    (hin : link.flight side.other = choice.chunk ++ link'.flight side.other)
    (hout : link'.flight side = link.flight side) :
    Answers link link' side (call'.pc.outcome = call.pc.outcome) call'.Broken
      (call.rest (.receive max next)) (call'.rest (.receive max next)) := by
  generalize choice.chunk = chunk at hfixes hin
  cases hfixes with
  | still hsame =>
    refine .still hsame ?_ hin.symm hout
    cases houtcome : call.pc.outcome with
    | none => rw [Call.rest_receive houtcome, Call.rest_receive (hsame.trans houtcome)]
    | some outcome =>
      rw [Call.rest_of_some houtcome, Call.rest_of_some (hsame.trans houtcome)]
  | error e hnone hsome =>
    refine .breaks (Or.inl ⟨e, hsome⟩) ?_ hin.symm hout
    rw [Call.rest_receive hnone, Call.rest_of_some hsome]
    exact .fault e trivial
  | ended hnone hsome =>
    have hreads := hinv'.reads side.other _ (List.prefix_refl _) fun _ => rfl
    rw [Side.other_other] at hreads
    have heof := hreads.answered hcall' hop (call'.outcome_eq.trans hsome)
    have hempty := (hinv'.at_end (side.other_other.symm ▸ heof)).2
    refine .breaks (Or.inr hsome) ?_ hin.symm hout
    rw [Call.rest_receive hnone, Call.rest_of_some hsome]
    exact .ended rfl (hin.trans hempty)
  | data hnone hne hle hsome =>
    refine .acts ?_
    rw [Call.rest_receive hnone, Call.rest_of_some hsome, hin, hout]
    exact .received hne hle

omit [DecidableEq ι] in
/-- **A step of a pending `send`.** -/
theorem answers_send (hsends : Sends data call.pc call.written effect call'.pc call'.written)
    (hin : link.flight side.other = link'.flight side.other)
    (hquiet : (∀ bytes, effect ≠ .write bytes) → link'.flight side = link.flight side)
    (hwrite : ∀ bytes, effect = .write bytes → link'.flight side = link.flight side ++ bytes) :
    Answers link link' side (call'.pc.outcome = call.pc.outcome) call'.Broken
      (call.rest (.send data rest)) (call'.rest (.send data rest)) := by
  generalize hw' : call'.written = w' at hsends
  generalize hpc' : call'.pc = pc' at hsends
  subst hpc'
  cases hsends with
  | still heffect hsame =>
    exact .still hsame (Call.rest_congr hsame hw' _) hin.symm (hquiet heffect)
  | error e heffect hnone hsome =>
    refine .breaks (Or.inl ⟨e, hsome⟩) ?_ hin.symm (hquiet heffect)
    rw [Call.rest_send hnone, Call.rest_of_some hsome]
    exact .fault e trivial
  | empty heffect hnone hdata hsome =>
    have hacts : Acts (.send [] rest) (link'.flight side.other) (link.flight side) rest
        (link'.flight side.other) (link.flight side ++ []) := .sent
    rw [List.append_nil] at hacts
    refine .acts ?_
    rw [Call.rest_send hnone, Call.rest_of_some hsome, hin, hquiet heffect, hdata, List.drop_nil]
    exact hacts
  | part n hnone hpos hlt hstill =>
    have hne : (data.drop call.written).take n ≠ [] := by
      refine List.ne_nil_of_length_pos ?_
      rw [List.length_take, List.length_drop]
      omega
    have hsplit : (data.drop call.written).take n ++ data.drop (call.written + n)
        = data.drop call.written := by
      rw [← List.drop_drop, List.take_append_drop]
    have hacts : Acts (.send ((data.drop call.written).take n ++ data.drop (call.written + n)) rest)
        (link'.flight side.other) (link.flight side) (.send (data.drop (call.written + n)) rest)
        (link'.flight side.other) (link.flight side ++ (data.drop call.written).take n) :=
      .sentPart hne
    rw [hsplit] at hacts
    refine .acts ?_
    rw [Call.rest_send hnone, Call.rest_send hstill, hw', hin, hwrite _ rfl]
    exact hacts
  | rest n hnone hpos hlen hsome =>
    have hall : (data.drop call.written).take n = data.drop call.written :=
      List.take_of_length_le (by rw [List.length_drop]; omega)
    refine .acts ?_
    rw [Call.rest_send hnone, Call.rest_of_some hsome, hin, hwrite _ rfl, hall]
    exact .sent

/-- **A step of a pending call**, for the program that has made it. -/
theorem answers_of_poll (hinv : LinkInv link) (hready : link.Ready (.act side (.poll id choice)))
    (h : link.step (.act side (.poll id choice)) = some link')
    (hcall : (link.core side).calls id = some call) (hop : opOf p = some call.op)
    (hasks : p.Asks) :
    ∃ call', (link'.core side).calls id = some call' ∧ call'.op = call.op ∧
      Answers link link' side (call'.pc.outcome = call.pc.outcome) call'.Broken (call.rest p)
        (call'.rest p) := by
  have hinv' := hinv.step hready h
  obtain ⟨core', hcore, hlink, hin, hout⟩ := Link.flight_of_act hinv hready h
  obtain rfl : link'.core side = core' := by rw [hlink, Function.update_self]
  simp only [Core.step, hcall, Option.map_eq_some_iff] at hcore
  obtain ⟨⟨call', effect⟩, hpoll, hcore⟩ := hcore
  have hcall' : (link'.core side).calls id = some call' := by
    rw [← hcore]
    exact Function.update_self ..
  obtain ⟨answers, hclose⟩ := hinv.closes side
  have hwire := hclose.wire
  obtain ⟨hop', hpolled⟩ := polled_of_poll hpoll
  refine ⟨call', hcall', hop', ?_⟩
  have hquiet : (∀ bytes, effect ≠ .write bytes) → link'.flight side = link.flight side := by
    intro heffect
    have hsame := hout [] ?_
    · rwa [List.append_nil] at hsame
    · rw [← hcore, List.append_nil]
      exact Shared.perform_wire _ _ _ heffect
  cases p with
  | receive max next =>
    have hreceive : call.op = .receive max := (Option.some.inj hop).symm
    have hreads := hinv.reads side.other _ (List.prefix_refl _) fun _ => rfl
    rw [Side.other_other] at hreads
    obtain ⟨-, hreceiving⟩ :=
      receiving_of_poll hreceive (hreads.behind id call max hcall hreceive).reading hpoll
    exact answers_receive hinv' hcall' (hop'.trans hreceive) (hreceiving.fixes hasks.1) hin
      (hquiet hreceiving.quiet)
  | send bytes next =>
    have hsend : call.op = .send bytes := (Option.some.inj hop).symm
    rw [hsend] at hpolled
    have hchunk : choice.chunk = [] := by
      by_contra hne
      exact absurd ((congrArg Op.reads hsend).symm.trans (Call.reads_of_chunk hpoll hne))
        Bool.false_ne_true
    refine answers_send (hpolled.sends (hsend ▸ hwire.typed id call hcall)) ?_ hquiet ?_
    · rw [hin]
      simp [Label.chunk, hchunk]
    · rintro bytes rfl
      exact hout bytes (by rw [← hcore]; rfl)
  | _ => exact absurd hop.symm (Option.some_ne_none _)

end Turns

/-! ### The invariant -/

/-- **The invariant of two tasks.** -/
structure TasksInv (s : Tasks κ ν α) : Prop where
  link : LinkInv s.link
  asks : ∀ side, (s.task side).prog.Asks
  /-- The pending call of a task is the one that its program has made. -/
  pending : ∀ side, (s.task side).waits = true → ∃ call,
    (s.link.core side).calls (.inl (s.task side).made) = some call ∧
      opOf (s.task side).prog = some call.op
  aside : ∀ side id call, (s.link.core side).calls (.inr id) = some call → call.op.Aside

variable {s s' : Tasks κ ν α} {side : Side} {task : Task ν α} {p q : StreamProg Error ν α}

theorem tasksInv_start (hp : p.Asks) (hq : q.Asks) : TasksInv (.start p q : Tasks κ ν α) where
  link := linkInv_init
  asks side := by
    cases side
    · exact hp
    · exact hq
  pending side h := by
    cases side <;> exact absurd h Bool.false_ne_true
  aside _ _ _ h := absurd h.symm (Option.some_ne_none _)

/-- What a step on one side is in the view: the other program stays where it is. -/
structure Tasks.Moves (s s' : Tasks κ ν α) (side : Side) (quiet broken : Prop) : Prop where
  other : (s'.task side.other).rest (s'.link.core side.other)
    = (s.task side.other).rest (s.link.core side.other)
  answers : Answers s.link s'.link side quiet broken ((s.task side).rest (s.link.core side))
    ((s'.task side).rest (s'.link.core side))

variable {quiet broken : Prop}

theorem Tasks.Moves.cases (h : s.Moves s' side quiet broken) :
    (quiet ∧ s'.view = s.view ∧ s'.link.flight side = s.link.flight side) ∨
      Duplex.Step s.view s'.view ∨ (broken ∧ Duplex.Lossy s.view s'.view) := by
  obtain ⟨hother, hanswers⟩ := h
  have hflight : s'.link.flight side.other = s.link.flight side.other →
      s'.link.flight side = s.link.flight side → s'.link.flight = s.link.flight := by
    intro hin hout
    funext d
    rcases side.eq_or_eq_other d with rfl | rfl
    · exact hout
    · exact hin
  generalize hrest' : (s'.task side).rest (s'.link.core side) = rest' at hanswers
  cases hanswers with
  | still hquiet hsame hin hout =>
    refine Or.inl ⟨hquiet, ?_, hout⟩
    unfold Tasks.view
    rw [hflight hin hout]
    congr 1
    funext d
    rcases side.eq_or_eq_other d with rfl | rfl
    · exact hrest'.trans hsame
    · exact hother
  | acts hacts =>
    subst hrest'
    exact Or.inr (Or.inl (Duplex.step_of_acts hacts hother))
  | breaks hbroken hcuts hin hout =>
    subst hrest'
    refine Or.inr (Or.inr ⟨hbroken, Or.inr ?_⟩)
    unfold Tasks.view
    rw [hflight hin hout]
    exact Duplex.breaks_of_cuts hcuts hother

variable [DecidableEq κ]

theorem Tasks.of_move {label : LinkLabel (ℕ ⊕ κ)} (h : s.move side task label = some s') :
    s.link.step label = some s'.link ∧ s'.task side = task ∧
      s'.task side.other = s.task side.other := by
  obtain ⟨link', hlink, rfl⟩ := Option.map_eq_some_iff.mp h
  exact ⟨hlink, Function.update_self .., Function.update_of_ne side.other_ne ..⟩

/-- **A step of a core**, with what has to be known of it. -/
theorem TasksInv.acted (hinv : TasksInv s) {label : Label (ℕ ⊕ κ)}
    (hready : s.link.Ready (.act side label))
    (h : s.move side task (.act side label) = some s') (hasks : task.prog.Asks)
    (haside : ∀ id op, label = .call (.inr id) op → op.Aside)
    (hpending : task.waits = true → ∃ call,
      (s'.link.core side).calls (.inl task.made) = some call ∧ opOf task.prog = some call.op)
    (hanswers : Answers s.link s'.link side quiet broken ((s.task side).rest (s.link.core side))
      (task.rest (s'.link.core side))) :
    TasksInv s' ∧ s.Moves s' side quiet broken := by
  obtain ⟨hlink, htask, hother⟩ := Tasks.of_move h
  obtain ⟨core', hcore, hupdate, -, -⟩ := Link.flight_of_act hinv.link hready hlink
  have hself : s'.link.core side = core' := by rw [hupdate, Function.update_self]
  have hcores : s'.link.core side.other = s.link.core side.other := by
    rw [hupdate, Function.update_of_ne side.other_ne]
  refine ⟨⟨hinv.link.step hready hlink, fun d => ?_, fun d hwaits => ?_, fun d id call hcall => ?_⟩,
    by rw [hother, hcores], by rwa [htask]⟩
  all_goals rcases side.eq_or_eq_other d with rfl | rfl
  · rwa [htask]
  · rw [hother]
    exact hinv.asks _
  · rw [htask] at hwaits ⊢
    exact hpending hwaits
  · rw [hother] at hwaits ⊢
    rw [hcores]
    exact hinv.pending _ hwaits
  · rw [hself] at hcall
    rcases Core.call_of_step hcore hcall with ⟨hlabel, -⟩ | ⟨c, hc, hop, -⟩
    · exact haside id _ hlabel
    · exact hop ▸ hinv.aside _ _ _ hc
  · rw [hcores] at hcall
    exact hinv.aside _ _ _ hcall

/-- A step of the link that is not a step of a core. -/
theorem TasksInv.cut (hinv : TasksInv s) (label : LinkLabel (ℕ ⊕ κ))
    (hready : s.link.Ready label) (h : s.move side (s.task side) label = some s')
    (hcut : ∀ link', s.link.step label = some link' →
      link'.core = s.link.core ∧ link'.taken = s.link.taken) :
    TasksInv s' ∧ s.Moves s' side True False := by
  obtain ⟨hlink, htask, hother⟩ := Tasks.of_move h
  obtain ⟨hcore, htaken⟩ := hcut _ hlink
  have htasks : s'.task = s.task := by
    funext d
    rcases side.eq_or_eq_other d with rfl | rfl
    · exact htask
    · exact hother
  refine ⟨⟨hinv.link.step hready hlink, ?_, ?_, ?_⟩, ?_, .still trivial ?_ ?_ ?_⟩
  · rw [htasks]
    exact hinv.asks
  · rw [htasks, hcore]
    exact hinv.pending
  · rw [hcore]
    exact hinv.aside
  · rw [htasks, hcore]
  · rw [htasks, hcore]
  · rw [Link.flight, Link.flight, hcore, htaken]
  · rw [Link.flight, Link.flight, hcore, htaken]

omit [DecidableEq κ] in
/-- A step of a task that is not a step of the link. -/
theorem TasksInv.advanced (hinv : TasksInv s) (hlink : s'.link = s.link)
    (htask : s'.task = Function.update s.task side task) (hidle : task.waits = false)
    (hasks : task.prog.Asks)
    (hanswers : Answers s.link s.link side quiet broken
      ((s.task side).rest (s.link.core side)) task.prog) :
    TasksInv s' ∧ s.Moves s' side quiet broken := by
  have hself : s'.task side = task := by rw [htask, Function.update_self]
  have hother : s'.task side.other = s.task side.other := by
    rw [htask, Function.update_of_ne side.other_ne]
  refine ⟨⟨hlink ▸ hinv.link, fun d => ?_, fun d hwaits => ?_, hlink ▸ hinv.aside⟩,
    by rw [hother, hlink], ?_⟩
  · rcases side.eq_or_eq_other d with rfl | rfl
    · rwa [hself]
    · rw [hother]
      exact hinv.asks _
  · rcases side.eq_or_eq_other d with rfl | rfl
    · rw [hself, hidle] at hwaits
      exact absurd hwaits Bool.false_ne_true
    · rw [hother] at hwaits ⊢
      rw [hlink]
      exact hinv.pending _ hwaits
  · rw [hself, hlink, Task.rest_of_idle hidle]
    exact hanswers

/-- A step that takes nothing and writes nothing leaves what is in flight. -/
theorem Link.flight_of_still {ι : Type} [DecidableEq ι] {link link' : Link ι} {label : Label ι}
    (hinv : LinkInv link) (hready : link.Ready (.act side label))
    (h : link.step (.act side label) = some link') (hchunk : label.chunk = [])
    (hwire : (link'.core side).shared.wire = (link.core side).shared.wire) :
    link'.flight side.other = link.flight side.other ∧ link'.flight side = link.flight side := by
  obtain ⟨core', -, hupdate, hin, hout⟩ := Link.flight_of_act hinv hready h
  rw [hchunk] at hin
  have hsame := hout [] (by rw [List.append_nil, ← hwire, hupdate, Function.update_self])
  rw [List.append_nil] at hsame
  exact ⟨hin.symm, hsame⟩

/-- A step beside a task takes nothing and writes nothing, and is not a step of the task. -/
theorem TasksInv.beside (hinv : TasksInv s) {label : Label κ}
    (hready : s.link.Ready (.act side label.beside))
    (h : s.link.step (.act side label.beside) = some s'.link) :
    s'.link.flight side.other = s.link.flight side.other ∧
      s'.link.flight side = s.link.flight side ∧
      ∀ n, (s'.link.core side).calls (.inl n) = (s.link.core side).calls (.inl n) := by
  obtain ⟨core', hcore, hupdate, -, -⟩ := Link.flight_of_act hinv.link hready h
  have hself : s'.link.core side = core' := by rw [hupdate, Function.update_self]
  obtain ⟨answers, hclose⟩ := hinv.link.closes side
  obtain ⟨id, call, hstepped, hchange⟩ := hclose.wire.change hcore
  obtain ⟨k, rfl⟩ : ∃ k, id = .inr k := by
    cases label <;> cases hstepped <;> exact ⟨_, rfl⟩
  have hstill := hchange.still fun c hc hbuffer => absurd (hinv.aside side k c hc).2 hbuffer
  have hchunk : label.beside.chunk = [] := by
    cases label with
    | poll id choice =>
      by_contra hne
      cases hcall : (s.link.core side).calls (.inr id) with
      | none => simp [Label.beside, Core.step, hcall] at hcore
      | some c =>
        simp only [Label.beside, Core.step, hcall, Option.map_eq_some_iff] at hcore
        obtain ⟨⟨c', effect⟩, hpoll, -⟩ := hcore
        exact absurd ((hinv.aside side id c hcall).1.symm.trans (Call.reads_of_chunk hpoll hne))
          Bool.false_ne_true
    | _ => rfl
  obtain ⟨hin, hout⟩ := Link.flight_of_still hinv.link hready h hchunk (hself ▸ hstill.1)
  exact ⟨hin, hout, fun n => hself ▸ hchange.calls_of_ne Sum.inl_ne_inr⟩

/-- What is known of a step that leaves the view: a poll fixes no outcome. -/
def Tasks.Quiet (s s' : Tasks κ ν α) : TaskLabel κ → Prop
  | .note _ => False
  | .poll side _ => ∃ call call',
      (s.link.core side).calls (.inl (s.task side).made) = some call ∧
      (s'.link.core side).calls (.inl (s.task side).made) = some call' ∧
      call'.pc.outcome = call.pc.outcome
  | _ => True

/-- What is known of a step that is a break: it is the poll of a call that fails or finds the
end. -/
def Tasks.Broken (s s' : Tasks κ ν α) : TaskLabel κ → Prop
  | .poll side _ => ∃ call',
      (s'.link.core side).calls (.inl (s.task side).made) = some call' ∧ call'.Broken
  | _ => False

/-- **What every step keeps**, and what it is in the view. -/
theorem TasksInv.step (hinv : TasksInv s) {label : TaskLabel κ} (hready : s.Ready label)
    (h : s.step label = some s') :
    TasksInv s' ∧ s.Moves s' label.side (s.Quiet s' label) (s.Broken s' label) := by
  cases label with
  | note side =>
    change TasksInv s' ∧ s.Moves s' side _ _
    simp only [Tasks.step] at h
    split at h
    · next event next hprog =>
      obtain rfl := Option.some.inj h
      have hidle : (s.task side).waits = false := by
        by_contra hwaits
        obtain ⟨call, -, hop⟩ := hinv.pending side (by simpa using hwaits)
        rw [hprog] at hop
        exact absurd hop.symm (Option.some_ne_none _)
      have hasks := hinv.asks side
      rw [hprog] at hasks
      refine hinv.advanced rfl rfl hidle hasks (.acts ?_)
      rw [Task.rest_of_idle hidle, hprog]
      exact .noted
    · exact absurd h.symm (Option.some_ne_none _)
  | call side =>
    change TasksInv s' ∧ s.Moves s' side _ _
    simp only [Tasks.step] at h
    split at h
    · exact absurd h.symm (Option.some_ne_none _)
    next hidle =>
    obtain ⟨op, hop, hmove⟩ := Option.bind_eq_some_iff.mp h
    obtain ⟨hlink, htask, -⟩ := Tasks.of_move hmove
    have hready : s.link.Ready (.act side (.call (.inl (s.task side).made) op)) := trivial
    obtain ⟨core', hcore, hupdate, -, -⟩ := Link.flight_of_act hinv.link hready hlink
    obtain rfl : s'.link.core side = core' := by rw [hupdate, Function.update_self]
    obtain ⟨hshared, hcalls⟩ := Core.of_call hcore
    have hcall : (s'.link.core side).calls (.inl (s.task side).made) = some { op } := by
      rw [hcalls, Function.update_self]
    obtain ⟨hin, hout⟩ := Link.flight_of_still hinv.link hready hlink rfl (by rw [hshared])
    refine hinv.acted hready hmove (hinv.asks side) (by simp) (fun _ => ⟨_, hcall, hop⟩)
      (.still trivial ?_ hin hout)
    rw [Task.rest, Task.rest, if_pos rfl, if_neg hidle, hcall]
    change Call.rest { op } _ = _
    cases (s.task side).prog with
    | send bytes next => exact Call.rest_send rfl
    | _ => rfl
  | poll side choice =>
    change TasksInv s' ∧ s.Moves s' side _ _
    simp only [Tasks.step] at h
    split at h
    · next hwaits =>
      obtain ⟨call, hcall, hop⟩ := hinv.pending side hwaits
      obtain ⟨hlink, htask, -⟩ := Tasks.of_move h
      obtain ⟨call', hcall', hop', hanswers⟩ :=
        answers_of_poll hinv.link hready hlink hcall hop (hinv.asks side)
      refine hinv.acted hready h (hinv.asks side) (by simp)
        (fun _ => ⟨call', hcall', hop'.symm ▸ hop⟩) ?_
      rw [Task.rest, Task.rest, if_pos hwaits, if_pos hwaits, hcall, hcall']
      exact hanswers.mono (fun hsame => ⟨call, call', hcall, hcall', hsame⟩)
        (fun hbroken => ⟨call', hcall', hbroken⟩)
    · exact absurd h.symm (Option.some_ne_none _)
  | answer side =>
    change TasksInv s' ∧ s.Moves s' side _ _
    simp only [Tasks.step] at h
    split at h
    · next hwaits =>
      obtain ⟨call, hcall, h⟩ := Option.bind_eq_some_iff.mp h
      split at h
      · next outcome hpc =>
        obtain ⟨next, hnext, rfl⟩ := Option.map_eq_some_iff.mp h
        refine hinv.advanced rfl rfl rfl (asks_of_answer (hinv.asks side) hnext)
          (.still trivial ?_ rfl rfl)
        rw [Task.rest, if_pos hwaits, hcall, Option.elim_some,
          Call.rest_of_some (show call.pc.outcome = some outcome by rw [hpc]; rfl), hnext]
        rfl
      · exact absurd h.symm (Option.some_ne_none _)
    · exact absurd h.symm (Option.some_ne_none _)
  | abandon side =>
    change TasksInv s' ∧ s.Moves s' side _ _
    simp only [Tasks.step] at h
    split at h
    · next hwaits =>
      obtain ⟨call, hcall, hop⟩ := hinv.pending side hwaits
      obtain ⟨hlink, htask, -⟩ := Tasks.of_move h
      have hready : s.link.Ready (.act side (.drop (.inl (s.task side).made))) := trivial
      obtain ⟨core', hcore, hupdate, -, -⟩ := Link.flight_of_act hinv.link hready hlink
      obtain rfl : s'.link.core side = core' := by rw [hupdate, Function.update_self]
      obtain ⟨hwire, hpc, hcall'⟩ := Core.of_drop hcall hcore
      obtain ⟨hin, hout⟩ := Link.flight_of_still hinv.link hready hlink rfl hwire
      refine hinv.acted hready h (hinv.asks side) (by simp) (fun _ => ⟨_, hcall', hop⟩)
        (.still trivial ?_ hin hout)
      rw [Task.rest, Task.rest, if_pos hwaits, if_pos hwaits, hcall, hcall', Option.elim_some,
        Option.elim_some]
      refine Call.rest_congr ?_ ?_ _
      · rcases hpc with hpc | hpc | hpc <;> rw [hpc] <;> rfl
      · rfl
    · exact absurd h.symm (Option.some_ne_none _)
  | beside side label =>
    change TasksInv s' ∧ s.Moves s' side _ _
    obtain ⟨hlink, htask, -⟩ := Tasks.of_move h
    obtain ⟨hin, hout, hcalls⟩ := hinv.beside hready.1 hlink
    have hrest : (s.task side).rest (s'.link.core side)
        = (s.task side).rest (s.link.core side) := by
      rw [Task.rest, Task.rest, hcalls]
    refine hinv.acted hready.1 h (hinv.asks side) (fun id op hlabel => ?_) (fun hwaits => ?_)
      (.still trivial hrest hin hout)
    · cases label with
      | call k op' =>
        obtain ⟨-, rfl⟩ := Label.call.inj hlabel
        exact hready.2
      | _ => exact absurd hlabel (by simp [Label.beside])
    · rw [hcalls]
      exact hinv.pending side hwaits
  | release side =>
    change TasksInv s' ∧ s.Moves s' side _ _
    refine hinv.cut (.release side) hready h fun link' hlink => ?_
    obtain rfl := Option.some.inj hlink
    exact ⟨rfl, rfl⟩
  | discard side =>
    change TasksInv s' ∧ s.Moves s' side _ _
    refine hinv.cut (.discard side) hready h fun link' hlink => ?_
    obtain rfl := Option.some.inj hlink
    exact ⟨rfl, rfl⟩

/-- What every run of two tasks keeps. -/
theorem TasksInv.of_runs (hp : p.Asks) (hq : q.Asks)
    (h : Runs Tasks.step Tasks.Ready (.start p q : Tasks κ ν α) s) :
    TasksInv s ∧ Relation.ReflTransGen Duplex.Lossy (.start p q) s.view := by
  refine h.invariant
    (fun s => TasksInv s ∧ Relation.ReflTransGen Duplex.Lossy (.start p q) s.view)
    ⟨tasksInv_start hp hq, .refl⟩ ?_
  rintro s label s' ⟨hinv, hreach⟩ hready hstep
  obtain ⟨hinv', hmoves⟩ := hinv.step hready hstep
  rcases hmoves.cases with ⟨-, hsame, -⟩ | hacts | ⟨-, hlossy⟩
  · exact ⟨hinv', hsame ▸ hreach⟩
  · exact ⟨hinv', hreach.tail (Or.inl hacts)⟩
  · exact ⟨hinv', hreach.tail hlossy⟩

omit [DecidableEq κ] in
/-- A task whose program has ended shows that end. -/
theorem TasksInv.rest_of_ended (hinv : TasksInv s) (hends : opOf (s.task side).prog = none) :
    (s.task side).rest (s.link.core side) = (s.task side).prog := by
  refine Task.rest_of_idle ?_
  by_contra hwaits
  obtain ⟨call, -, hop⟩ := hinv.pending side (by simpa using hwaits)
  exact absurd (hends.symm.trans hop).symm (Option.some_ne_none _)

/-- **Two tasks are a lossy conversation.** In every interleaving of two tasks, with any calls of
others beside them that neither read nor write, and with either task abandoned or either connection
discarded at any time: what the view shows is reached by lossy steps of the two programs, and a task
whose program has ended shows that end. -/
theorem tasks_refine (hp : p.Asks) (hq : q.Asks)
    (h : Runs Tasks.step Tasks.Ready (.start p q : Tasks κ ν α) s) :
    Relation.ReflTransGen Duplex.Lossy (.start p q) s.view ∧
      (∀ side, opOf (s.task side).prog = none →
        (s.task side).rest (s.link.core side) = (s.task side).prog) :=
  ⟨(TasksInv.of_runs hp hq h).2, fun _ hends => (TasksInv.of_runs hp hq h).1.rest_of_ended hends⟩

end Transport

end Taunicorn
