import Mathlib.Data.Seq.Basic
import Taunicorn.Transport.Shutdown

/-!
# Receiving

What a `receive` takes from the raw stream it returns: behind the raw read there is no await, so a
call that is dropped has consumed nothing. The read gate lets one call at a time to the raw
stream, and the chunks that the calls return stand one after the other in what was consumed.

The peer's bytes are a sequence, finite or not, and a raw read that is ready gives the next of
them, or nothing at their end. End of stream is a flag of its own, and `receive` looks at it before
anything else: whoever starts behind it returns it, whatever else has happened.

## Main results

* `receiving_of_poll` — the steps of a `receive`, each with the answer of the environment
* `ReadInv.step` — what was consumed is in read-gate order
* `AtEnd.returns` — a `receive` that starts behind the end of the stream returns it
* `receives_exact` — all of it
-/

namespace Taunicorn

namespace Transport

open FifoMutex

variable {ι : Type}

/-! ### The steps of a `receive` -/

/-- What an answer takes from the raw stream. -/
def Choice.chunk : Choice → List UInt8
  | .read chunk => chunk
  | _ => []

/-- The steps of a `receive`, each with the answer of the environment. -/
inductive Receiving (sh : Shared ι) (id : ι) (max : ℕ) : PC → Choice → Effect → PC → Prop
  | empty : max = 0 → Receiving sh id max .start .go .none (.done (.ok (.data [])))
  | entered : max ≠ 0 → Receiving sh id max .start .go .none (.eof false)
  | eof (b : Bool) : sh.state.peerSentEof = true →
      Receiving sh id max (.eof b) .go .none (.finish b (.ok .endOfStream))
  | notEof (b : Bool) : sh.state.peerSentEof = false →
      Receiving sh id max (.eof b) .go .none (.ensure b .closed)
  | refused (b : Bool) (flag : Flag) (e : Error) :
      Receiving sh id max (.ensure b flag) .go .none (.finish b (.error e))
  | passed (b : Bool) (flag : Flag) :
      Receiving sh id max (.ensure b flag) .go .none ((Op.receive max).afterEnsure b flag)
  | requested : Receiving sh id max .gate .gate .request .gateWait
  | gaveUp (choice : Choice) (e : Error) : choice.chunk = [] →
      Receiving sh id max .gate choice .none (.done (.error e))
  | granted : sh.readGate.holder = some id →
      Receiving sh id max .gateWait .gate .none (.eof true)
  | withdrew (choice : Choice) (e : Error) : choice.chunk = [] →
      Receiving sh id max .gateWait choice .leave (.done (.error e))
  | closedSeen (e : Error) : Receiving sh id max .streamClosed .go .none (.unwind (.error e))
  | openSeen : Receiving sh id max .streamClosed .go .none .stream
  | noStream (e : Error) : Receiving sh id max .stream .go .none (.unwind (.error e))
  | stream : Receiving sh id max .stream .go .none .io
  | interrupted (choice : Choice) (e : Error) : choice.chunk = [] →
      Receiving sh id max .io choice .none (.unwind (.error e))
  | read (chunk : List UInt8) : chunk ≠ [] → chunk.length ≤ max →
      Receiving sh id max .io (.read chunk) .none (.unwind (.ok (.data chunk)))
  | readEof : Receiving sh id max .io (.read []) .none .storeEof
  | failed (choice : Choice) (e : Error) : choice.chunk = [] →
      Receiving sh id max .io choice .none (.closing .closed false (some e))
  | eofStored :
      Receiving sh id max .storeEof .go (.store .peerSentEof true) (.unwind (.ok .endOfStream))
  | closing (stage : CloseStage) (first : Bool) (e : Error) :
      Receiving sh id max (.closing stage first (some e)) .go
        (pollClosing sh stage first (some e)).2 (pollClosing sh stage first (some e)).1
  | released (outcome : Outcome) :
      Receiving sh id max (.unwind outcome) .go .leave (.done outcome)

/-- Where a `receive` can stand. -/
def Reading : PC → Prop
  | .idle _ _ => False
  | .deadline => False
  | .store => False
  | .cancelRead => False
  | .closing _ _ none => False
  | _ => True

variable {sh sh' : Shared ι} {id i : ι} {max : ℕ} {op : Op} {pc pc' : PC} {w w' : ℕ}
  {choice : Choice} {effect : Effect} {core core' : Core ι} {call call' : Call} {label : Label ι}

theorem Op.eq_receive_of_reads (h : op.reads = true) : ∃ max, op = .receive max := by
  cases op <;> first | exact ⟨_, rfl⟩ | exact absurd h Bool.false_ne_true

theorem chunk_of_giveUp {e : Error} (h : op.giveUp sh choice = some e) : choice.chunk = [] := by
  cases choice <;> first | rfl | exact absurd h nofun

/-- **The list is complete.** -/
theorem receiving_of_poll [DecidableEq ι] (hop : call.op = .receive max) (hpc : Reading call.pc)
    (h : call.poll sh id choice = some (call', effect)) :
    call'.op = call.op ∧ Receiving sh id max call.pc choice effect call'.pc := by
  obtain ⟨op, pc, w⟩ := call
  dsimp only at hop hpc ⊢
  subst hop
  unfold Call.poll at h
  dsimp only at h
  split at h
  case h_1 =>
    cases h
    refine ⟨rfl, ?_⟩
    by_cases hmax : max = 0
    · rw [show (Op.receive max).enter = .done (.ok (.data [])) from if_pos hmax]
      exact .empty hmax
    · rw [show (Op.receive max).enter = .eof false from if_neg hmax]
      exact .entered hmax
  case h_2 b =>
    cases h
    refine ⟨rfl, ?_⟩
    dsimp only
    split
    · next hset => exact .eof b hset
    · next hclear => exact .notEof b (by simpa using hclear)
  case h_3 b flag =>
    cases h
    refine ⟨rfl, ?_⟩
    dsimp only
    split
    · exact .refused b flag _
    · exact .passed b flag
  case h_4 => exact hpc.elim
  case h_5 => exact hpc.elim
  case h_6 => cases h; exact ⟨rfl, .requested⟩
  case h_7 =>
    obtain ⟨e, hready, he⟩ := Option.map_eq_some_iff.mp h
    cases he; exact ⟨rfl, .gaveUp _ e (chunk_of_giveUp hready)⟩
  case h_8 =>
    split_ifs at h with hholder
    cases h; exact ⟨rfl, .granted hholder⟩
  case h_9 => exact absurd h nofun
  case h_10 =>
    obtain ⟨e, hready, he⟩ := Option.map_eq_some_iff.mp h
    cases he; exact ⟨rfl, .withdrew _ e (chunk_of_giveUp hready)⟩
  case h_11 => exact hpc.elim
  case h_12 => exact hpc.elim
  case h_13 =>
    cases h
    refine ⟨rfl, ?_⟩
    dsimp only
    split
    · exact .closedSeen _
    · exact .openSeen
  case h_14 =>
    cases h
    refine ⟨rfl, ?_⟩
    dsimp only
    split
    · exact .stream
    · exact .noStream _
  case h_15 =>
    split at h
    · next e he =>
      cases h
      exact ⟨rfl, .interrupted _ e (chunk_of_giveUp he)⟩
    · obtain ⟨⟨pc, w', effect⟩, hio, he⟩ := Option.map_eq_some_iff.mp h
      cases he
      refine ⟨rfl, ?_⟩
      cases choice with
      | read chunk =>
        simp only [pollIo] at hio
        split_ifs at hio with hlen hempty
        · cases hio
          obtain rfl := List.isEmpty_iff.mp hempty
          exact .readEof
        · cases hio
          exact .read chunk (fun hnil => hempty (List.isEmpty_iff.mpr hnil)) hlen
      | fail text => cases hio; exact .failed _ _ rfl
      | _ => exact absurd hio nofun
  case h_16 => cases h; exact ⟨rfl, .eofStored⟩
  case h_17 stage first error =>
    cases error with
    | none => exact hpc.elim
    | some e => cases h; exact ⟨rfl, .closing stage first e⟩
  case h_18 outcome => cases h; exact ⟨rfl, .released outcome⟩
  case h_19 => exact absurd h nofun

/-! ### What one step does -/

/-- The bytes that a call has received, once its outcome is fixed. -/
def PC.received : PC → List UInt8
  | .unwind (.ok (.data bytes)) => bytes
  | .done (.ok (.data bytes)) => bytes
  | _ => []

def Call.received (call : Call) : List UInt8 := if call.op.reads then call.pc.received else []

/-- Where a call stands at the read gate. -/
def Op.readPlace (op : Op) (pc : PC) : Place :=
  if op.reads then
    match pc with
    | .start => .away
    | .eof behindGate => if behindGate then .holding else .away
    | .ensure behindGate _ => if behindGate then .holding else .away
    | .idle _ _ => .away
    | .deadline => .away
    | .gate => .away
    | .gateWait => .waiting
    | .store => .away
    | .cancelRead => .away
    | .streamClosed => .holding
    | .stream => .holding
    | .io => .holding
    | .storeEof => .holding
    | .closing _ _ _ => .holding
    | .unwind _ => .holding
    | .done _ => .left
    | .dropped => .left
    | .panicked => .left
  else .away

/-- What is known of the outcome of a `receive`: an empty chunk is for an empty buffer, and the
end of the stream has been seen. -/
def Answered (eof : Bool) (max : ℕ) : Outcome → Prop
  | .error _ => True
  | .ok (.data chunk) => chunk = [] ↔ max = 0
  | .ok .endOfStream => eof = true
  | .ok _ => False

/-- What is known of a `receive` where it stands. -/
def ReadBehind (eof : Bool) (ended : Prop) (max : ℕ) : PC → Prop
  | .storeEof => ended
  | .unwind outcome => Answered eof max outcome
  | .done outcome => Answered eof max outcome
  | pc => Reading pc

theorem ReadBehind.reading {eof : Bool} {ended : Prop} (h : ReadBehind eof ended max pc) :
    Reading pc := by
  cases pc <;> first | exact h | trivial

theorem ReadBehind.mono {eof eof' : Bool} {ended ended' : Prop} (h : ReadBehind eof ended max pc)
    (heof : eof = true → eof' = true) (hended : ended → ended') :
    ReadBehind eof' ended' max pc := by
  have hanswered : ∀ outcome, Answered eof max outcome → Answered eof' max outcome := by
    rintro (e | _ | _ | _ | _) hout <;> first | exact heof hout | exact hout
  cases pc with
  | storeEof => exact hended h
  | unwind outcome => exact hanswered outcome h
  | done outcome => exact hanswered outcome h
  | _ => exact h

/-- **What a step takes from the raw stream, the call returns.** -/
theorem Receiving.received (h : Receiving sh id max pc choice effect pc') :
    pc'.received = pc.received ++ choice.chunk ∧ (choice.chunk ≠ [] → pc = .io) := by
  have hfinish : ∀ b outcome, (∀ bytes, outcome ≠ .ok (.data bytes)) →
      (PC.finish b outcome).received = [] := by
    rintro b (e | _ | _ | bytes | _) hne
    case ok.data => exact absurd rfl (hne bytes)
    all_goals cases b <;> rfl
  cases h with
  | eof b _ => exact ⟨hfinish b _ nofun, fun h => absurd rfl h⟩
  | refused b flag e => exact ⟨hfinish b _ nofun, fun h => absurd rfl h⟩
  | passed b flag => exact ⟨by cases b <;> cases flag <;> rfl, fun h => absurd rfl h⟩
  | gaveUp choice e hchunk => exact ⟨hchunk.symm, fun h => absurd hchunk h⟩
  | withdrew choice e hchunk => exact ⟨hchunk.symm, fun h => absurd hchunk h⟩
  | interrupted choice e hchunk => exact ⟨hchunk.symm, fun _ => rfl⟩
  | read chunk _ _ => exact ⟨rfl, fun _ => rfl⟩
  | readEof => exact ⟨rfl, fun _ => rfl⟩
  | failed choice e hchunk => exact ⟨hchunk.symm, fun _ => rfl⟩
  | closing stage first e =>
    exact ⟨by cases stage <;> cases first <;> rfl, fun h => absurd rfl h⟩
  | released outcome =>
    exact ⟨by rcases outcome with e | _ | _ | bytes | _ <;> simp [PC.received, Choice.chunk],
      fun h => absurd rfl h⟩
  | _ => exact ⟨rfl, fun h => absurd rfl h⟩

variable [DecidableEq ι]

/-- **How a step moves a `receive` at the read gate.** -/
theorem Receiving.move (h : Receiving sh id max pc choice effect pc') :
    sh.readGate.Move id ((Op.receive max).readPlace pc)
      (sh.perform id (.receive max) effect).readGate ((Op.receive max).readPlace pc') := by
  have hfinish : ∀ b outcome, sh.readGate.Move id (if b then .holding else .away) sh.readGate
      ((Op.receive max).readPlace (.finish b outcome)) := by
    intro b outcome
    cases b
    · exact .giveUp
    · exact .stay _
  cases h with
  | empty => exact .giveUp
  | entered => exact .stay _
  | eof b _ => exact hfinish b _
  | notEof b _ => exact .stay _
  | refused b flag e => exact hfinish b _
  | passed b flag => cases b <;> cases flag <;> exact .stay _
  | requested => exact .request
  | gaveUp choice e _ => exact .giveUp
  | granted hholder => exact .granted hholder
  | withdrew choice e _ => exact .leave _
  | eofStored => exact .stay _
  | closing stage first e => cases stage <;> cases first <;> exact .stay _
  | released outcome => exact .leave _
  | _ => exact .stay _

theorem Receiving.behind {ended : Prop} (h : Receiving sh id max pc choice effect pc')
    (hbehind : ReadBehind sh.state.peerSentEof ended max pc) (hread : choice = .read [] → ended) :
    ReadBehind (sh.perform id (.receive max) effect).state.peerSentEof ended max pc' := by
  have hfinish : ∀ {eof : Bool} b outcome, Answered eof max outcome →
      ReadBehind eof ended max (.finish b outcome) := by
    intro eof b outcome hout
    cases b <;> exact hout
  cases h with
  | empty hmax => exact iff_of_true rfl hmax
  | eof b hset => exact hfinish b _ hset
  | refused b flag e => exact hfinish b _ trivial
  | passed b flag => cases b <;> cases flag <;> trivial
  | read chunk hne hlen =>
    refine iff_of_false hne fun hmax => hne (List.length_eq_zero_iff.mp ?_)
    omega
  | readEof => exact hread rfl
  | eofStored => exact rfl
  | closing stage first e => cases stage <;> cases first <;> trivial
  | released outcome => exact hbehind
  | _ => trivial

theorem Receiving.seen (h : Receiving sh id max pc choice effect pc')
    (heof : (sh.perform id (.receive max) effect).state.peerSentEof = true) :
    sh.state.peerSentEof = true ∨ pc = .storeEof := by
  cases h with
  | eofStored => exact Or.inr rfl
  | closing stage first e => cases stage <;> exact Or.inl heof
  | _ => exact Or.inl heof

/-- Only a `receive` reads, -/
theorem Call.reads_of_chunk (h : call.poll sh id choice = some (call', effect))
    (hchunk : choice.chunk ≠ []) : call.op.reads = true := by
  obtain ⟨op, pc, w⟩ := call
  cases choice with
  | read chunk =>
    cases pc with
    | io =>
      cases op with
      | receive max => rfl
      | _ => simp [Call.poll, Op.interrupted, Op.giveUp, pollIo, pollSend, pollSendTimeout] at h
    | _ => simp [Call.poll, Op.giveUp] at h
  | _ => exact absurd rfl hchunk

omit [DecidableEq ι] in
/-- and only a `receive` sees the end of the stream. -/
theorem Polled.peerSentEof [DecidableEq ι] (h : Polled sh id op pc w effect pc' w')
    (htyped : op.Typed pc) (hreads : op.reads = false) :
    (sh.perform id op effect).state.peerSentEof = sh.state.peerSentEof ∧
      (sh.perform id op effect).readGate = sh.readGate := by
  have hgate : ∀ f : FifoMutex ι → FifoMutex ι, (sh.onGate op f).state = sh.state ∧
      (sh.onGate op f).readGate = sh.readGate := by
    intro f
    simp [Shared.onGate, hreads]
  cases h with
  | requested => exact ⟨congrArg _ (hgate _).1, (hgate _).2⟩
  | withdrew e _ => exact ⟨congrArg _ (hgate _).1, (hgate _).2⟩
  | released outcome => exact ⟨congrArg _ (hgate _).1, (hgate _).2⟩
  | stored hstored =>
    cases Op.stores_of_stored hstored <;> exact ⟨rfl, rfl⟩
  | eofStored => exact absurd (hreads.symm.trans htyped) (by rintro ⟨⟩)
  | closing stage first error => cases stage <;> exact ⟨rfl, rfl⟩
  | _ => exact ⟨rfl, rfl⟩

/-! ### What was consumed -/

/-- What a step consumes. -/
def Label.chunk : Label ι → List UInt8
  | .poll _ choice => choice.chunk
  | _ => []

/-- What a step shows of the raw reads. -/
def consumes (_core : Core ι) (label : Label ι) : List UInt8 := label.chunk

/-- **A raw read that is ready** gives the next bytes of the peer, or nothing at their end. -/
def Feeds (peer : Stream'.Seq UInt8) (x : Core ι × List UInt8) : Label ι → Prop
  | .poll _ (.read chunk) => x.2 ++ chunk = peer.take (x.2 ++ chunk).length ∧
      (chunk = [] → peer.TerminatedAt x.2.length)
  | _ => True

def Core.readPlace (core : Core ι) (id : ι) : Place :=
  match core.calls id with
  | none => .away
  | some call => call.op.readPlace call.pc

/-- The bytes that a call has received. -/
def Core.received (core : Core ι) (id : ι) : List UInt8 :=
  match core.calls id with
  | none => []
  | some call => call.received

/-- **The invariant of receiving.** -/
structure ReadInv (peer : Stream'.Seq UInt8) (core : Core ι) (bytes : List UInt8) : Prop where
  wire : WireInv core
  /-- The chunks stand one after the other, in read-gate order. -/
  logged : core.shared.readGate.Logged core.readPlace core.received bytes
  behind : ∀ id call max, core.calls id = some call → call.op = .receive max →
    ReadBehind core.shared.state.peerSentEof (peer.TerminatedAt bytes.length) max call.pc
  taken : bytes = peer.take bytes.length
  ended : core.shared.state.peerSentEof = true → peer.TerminatedAt bytes.length

variable {peer : Stream'.Seq UInt8} {bytes : List UInt8}

omit [DecidableEq ι] in
theorem Core.readPlace_eq (h : core.calls id = some call) :
    core.readPlace id = call.op.readPlace call.pc := by
  simp only [readPlace, h]

omit [DecidableEq ι] in
theorem Core.received_eq (h : core.calls id = some call) : core.received id = call.received := by
  simp only [received, h]

omit [DecidableEq ι] in
/-- A call that waits for the gate has received nothing. -/
theorem Call.received_of_waiting (h : call.op.readPlace call.pc = .waiting) :
    call.received = [] := by
  unfold Op.readPlace at h
  unfold Call.received
  cases hreads : call.op.reads <;> rw [hreads] at h
  · rfl
  · cases hpc : call.pc <;> rw [hpc] at h <;> first | rfl | exact absurd h (by simp)

omit [DecidableEq ι] in
theorem readInv_init : ReadInv peer ({} : Core ι) [] where
  wire := wireInv_init
  logged := logged_empty fun _ => rfl
  behind _ _ _ h := absurd h nofun
  taken := rfl
  ended h := absurd h nofun

/-- What a step does to the call that makes it, seen from the read gate. -/
structure ReadChange (core : Core ι) (label : Label ι) (id : ι) (call : Call) (core' : Core ι) :
    Prop where
  calls : core'.calls = Function.update core.calls id (some call)
  move : core.shared.readGate.Move id (core.readPlace id) core'.shared.readGate
    (call.op.readPlace call.pc)
  received : call.received = core.received id ++ label.chunk
  io : label.chunk ≠ [] → core.readPlace id = .holding
  eof : core.shared.state.peerSentEof = true → core'.shared.state.peerSentEof = true
  behind : ∀ max ended, call.op = .receive max → (label = .poll id (.read []) → ended) →
    (∀ c, core.calls id = some c → c.op = .receive max →
      ReadBehind core.shared.state.peerSentEof ended max c.pc) →
    ReadBehind core'.shared.state.peerSentEof ended max call.pc
  ended : core'.shared.state.peerSentEof = true → core.shared.state.peerSentEof = true ∨
    ∃ c max, core.calls id = some c ∧ c.op = .receive max ∧ c.pc = .storeEof

theorem ReadInv.change_polled (hinv : ReadInv peer core bytes) (hcall : core.calls id = some call)
    (h : call.poll core.shared id choice = some (call', effect)) :
    ReadChange core (.poll id choice) id call'
      { shared := core.shared.perform id call.op effect
        calls := Function.update core.calls id (some call') } := by
  obtain ⟨hop, hpolled⟩ := polled_of_poll h
  have htyped := hinv.wire.typed id call hcall
  cases hreads : call.op.reads with
  | false =>
    obtain ⟨heof, hgate⟩ := hpolled.peerSentEof htyped hreads
    have hchunk : choice.chunk = [] := by
      by_contra hne
      exact absurd (hreads.symm.trans (Call.reads_of_chunk h hne)) nofun
    have haway : ∀ pc, call.op.readPlace pc = .away := fun pc => by simp [Op.readPlace, hreads]
    refine ⟨rfl, ?_, ?_, fun hne => absurd hchunk hne, fun heof' => heof.trans heof', ?_, ?_⟩
    · rw [Core.readPlace_eq hcall, hop, haway, haway, hgate]
      exact .stay _
    · simp [Core.received_eq hcall, Call.received, hop, hreads, Label.chunk, hchunk]
    · rintro max ended hmax - -
      rw [← hop, hmax] at hreads
      exact absurd hreads nofun
    · exact fun heof' => Or.inl (heof.symm.trans heof')
  | true =>
    obtain ⟨max, hmax⟩ := Op.eq_receive_of_reads hreads
    obtain ⟨-, hreceiving⟩ := receiving_of_poll hmax (hinv.behind id call max hcall hmax).reading h
    obtain ⟨hreceived, hio⟩ := hreceiving.received
    rw [hmax] at hpolled
    refine ⟨rfl, ?_, ?_, fun hne => ?_, ?_, ?_, ?_⟩
    · rw [Core.readPlace_eq hcall, hop, hmax]
      exact hreceiving.move
    · rw [Core.received_eq hcall, Call.received, Call.received, hop, hmax]
      exact hreceived
    · rw [Core.readPlace_eq hcall, hmax, hio hne]
      rfl
    · rw [hmax]
      exact fun heof => hpolled.load rfl (show core.shared.state.load .peerSentEof = true from heof)
    · intro max' ended hmax' hread hbehind
      obtain rfl : max = max' := Op.receive.inj (hmax.symm.trans (hop.symm.trans hmax'))
      rw [hmax]
      exact hreceiving.behind (hbehind call hcall hmax) fun hchoice => hread (congrArg _ hchoice)
    · rw [hmax]
      exact fun heof => (hreceiving.seen heof).imp_right fun hpc => ⟨call, max, hcall, hmax, hpc⟩

theorem ReadInv.change_dropped (hcall : core.calls id = some call) (h : call.drop = some effect) :
    ReadChange core (.drop id) id { call with pc := .dropped }
      { shared := core.shared.perform id call.op effect
        calls := Function.update core.calls id (some { call with pc := .dropped }) } := by
  obtain ⟨hpc, heffect⟩ := drop_eq_some h
  have hstate := state_of_drop core.shared id h
  refine ⟨rfl, ?_, ?_, fun hne => absurd rfl hne, fun heof => ?_, fun _ _ _ _ _ => trivial,
    fun heof => Or.inl ?_⟩
  · rw [Core.readPlace_eq hcall]
    cases hreads : call.op.reads with
    | false =>
      have hgate : (core.shared.perform id call.op effect).readGate = core.shared.readGate := by
        rcases heffect with rfl | rfl
        · rfl
        · simp [Shared.perform, Shared.onGate, hreads]
      rw [hgate]
      simpa [Op.readPlace, hreads] using Move.stay _
    | true =>
      unfold Call.drop at h
      rcases hpc with hpc | hpc | hpc <;> rw [hpc] at h <;> cases h
      · simpa [hpc, Op.readPlace, hreads, Shared.perform] using Move.giveUp
      · simpa [hpc, Op.readPlace, hreads, Shared.perform, Shared.onGate] using Move.leave _
      · simpa [hpc, Op.readPlace, hreads, Shared.perform, Shared.onGate] using Move.leave _
  · have hreceived : call.received = [] := by
      unfold Call.received
      rcases hpc with hpc | hpc | hpc <;> rw [hpc] <;> simp [PC.received]
    rw [Core.received_eq hcall, hreceived]
    simp [Call.received, PC.received, Label.chunk]
  · exact (congrArg ConnectionState.peerSentEof hstate).trans heof
  · exact (congrArg ConnectionState.peerSentEof hstate).symm.trans heof

/-- **Every step is such a change.** -/
theorem ReadInv.change (hinv : ReadInv peer core bytes) (h : core.step label = some core') :
    ∃ id call, ReadChange core label id call core' := by
  cases label with
  | call id op =>
    simp only [Core.step] at h
    split at h
    · next hnone =>
      obtain rfl := Option.some.inj h
      refine ⟨id, { op }, rfl, ?_, ?_, fun hne => absurd rfl hne, fun heof => heof, ?_, Or.inl⟩
      · have hplace : core.readPlace id = op.readPlace .start := by
          cases hreads : op.reads <;> simp [Core.readPlace, hnone, Op.readPlace, hreads]
        rw [hplace]
        exact .stay _
      · simp [Core.received, hnone, Call.received, PC.received, Label.chunk]
      · exact fun _ _ _ _ _ => trivial
    · cases h
  | poll id choice =>
    simp only [Core.step] at h
    split at h
    · cases h
    · next call hcall =>
      obtain ⟨⟨call', effect⟩, hpoll, rfl⟩ := Option.map_eq_some_iff.mp h
      exact ⟨id, call', hinv.change_polled hcall hpoll⟩
  | drop id =>
    simp only [Core.step] at h
    split at h
    · cases h
    · next call hcall =>
      obtain ⟨effect, hdrop, rfl⟩ := Option.map_eq_some_iff.mp h
      exact ⟨id, _, ReadInv.change_dropped hcall hdrop⟩

omit [DecidableEq ι] in
/-- At its end the peer's stream has nothing more to give. -/
theorem chunk_of_terminated {chunk : List UInt8} (hended : peer.TerminatedAt bytes.length)
    (htaken : bytes ++ chunk = peer.take (bytes ++ chunk).length) : chunk = [] := by
  by_contra hne
  have hlen : bytes.length < (bytes ++ chunk).length := by
    rw [List.length_append]
    have := List.length_pos_iff.mpr hne
    omega
  have hget : (bytes ++ chunk)[bytes.length]? = none := by
    rw [htaken, Stream'.Seq.getElem?_take, if_pos hlen]
    exact hended
  rw [List.getElem?_eq_none_iff] at hget
  omega

theorem ReadInv.step (hinv : ReadInv peer core bytes) (hfeeds : Feeds peer (core, bytes) label)
    (h : core.step label = some core') : ReadInv peer core' (bytes ++ label.chunk) := by
  obtain ⟨id, call, hchange⟩ := hinv.change h
  have hself : core'.calls id = some call := by rw [hchange.calls, Function.update_self]
  have hother : ∀ i, i ≠ id → core'.calls i = core.calls i := by
    intro i hi
    rw [hchange.calls, Function.update_of_ne hi]
  have htaken : bytes ++ label.chunk = peer.take (bytes ++ label.chunk).length := by
    cases label with
    | poll id choice =>
      cases choice with
      | read chunk => exact hfeeds.1
      | _ => simpa [Label.chunk, Choice.chunk] using hinv.taken
    | _ => simpa [Label.chunk] using hinv.taken
  have hended : peer.TerminatedAt bytes.length →
      peer.TerminatedAt (bytes ++ label.chunk).length := by
    intro hended
    rwa [chunk_of_terminated hended htaken, List.append_nil]
  have hbehind : ∀ i c max, core.calls i = some c → c.op = .receive max →
      ReadBehind core.shared.state.peerSentEof
        (peer.TerminatedAt (bytes ++ label.chunk).length) max c.pc :=
    fun i c max hc hop => (hinv.behind i c max hc hop).mono (fun heof => heof) hended
  refine ⟨hinv.wire.step h, ?_, fun i c max hc hop => ?_, htaken, fun heof => ?_⟩
  · have hmove : core.shared.readGate.Move id (core.readPlace id) core'.shared.readGate
        (core'.readPlace id) := by
      rw [Core.readPlace_eq hself]
      exact hchange.move
    refine hinv.logged.step hmove (fun i hi => ?_) (fun i hi => ?_) ?_ (fun hne => ?_)
      fun hwaiting => ?_
    · simp only [Core.readPlace, hother i hi]
    · simp only [Core.received, hother i hi]
    · rw [Core.received_eq hself]
      exact hchange.received
    · have hat := hinv.logged.at_place id
      rw [hchange.io hne] at hat
      exact hat
    · rw [Core.received_eq hself]
      exact Call.received_of_waiting (Core.readPlace_eq hself ▸ hwaiting)
  · by_cases hi : i = id
    · subst hi
      obtain rfl := Option.some.inj (hself.symm.trans hc)
      refine hchange.behind max _ hop (fun hread => ?_) fun c hc hop => hbehind i c max hc hop
      subst hread
      exact hended (hfeeds.2 rfl)
    · rw [hother i hi] at hc
      exact (hbehind i c max hc hop).mono hchange.eof fun hended => hended
  · rcases hchange.ended heof with heof' | ⟨c, max, hc, hop, hpc⟩
    · exact hended (hinv.ended heof')
    · have hstored := hbehind id c max hc hop
      rw [hpc] at hstored
      exact hstored

theorem ReadInv.of_runs {core core' : Core ι} {bytes bytes' : List UInt8}
    (hinv : ReadInv peer core bytes)
    (h : Runs (withHistory Core.step consumes) (Feeds peer) (core, bytes) (core', bytes')) :
    ReadInv peer core' bytes' :=
  h.invariant (fun x => ReadInv peer x.1 x.2) hinv fun x label x' hinv hfeeds hstep => by
    obtain ⟨hcore, hhistory⟩ := withHistory_eq_some.mp hstep
    rw [hhistory]
    exact hinv.step hfeeds hcore

/-! ### Behind the end of the stream -/

omit [DecidableEq ι] in
theorem ReadInv.answered (hinv : ReadInv peer core bytes) (hcall : core.calls id = some call)
    (hop : call.op = .receive max) {outcome : Outcome} (houtcome : call.outcome = some outcome) :
    Answered core.shared.state.peerSentEof max outcome := by
  have hbehind := hinv.behind id call max hcall hop
  unfold Call.outcome at houtcome
  cases hpc : call.pc <;> rw [hpc] at hbehind houtcome
  case unwind => exact Option.some.inj houtcome ▸ hbehind
  case done => exact Option.some.inj houtcome ▸ hbehind
  all_goals exact absurd houtcome nofun

/-- Behind the end of the stream nobody receives anything. -/
theorem ReadInv.received_of_runs (hinv : ReadInv peer core bytes)
    (hended : peer.TerminatedAt bytes.length) {bytes' : List UInt8}
    (h : Runs (withHistory Core.step consumes) (Feeds peer) (core, bytes) (core', bytes')) :
    ∀ i, core'.received i = core.received i := by
  have hkeeps := h.invariant (fun x => ReadInv peer x.1 x.2 ∧ peer.TerminatedAt x.2.length ∧
    ∀ i, x.1.received i = core.received i) ⟨hinv, hended, fun _ => rfl⟩ ?_
  · exact hkeeps.2.2
  · rintro ⟨c, b⟩ label ⟨c', b'⟩ ⟨hinv, hended, hreceived⟩ hfeeds hstep
    obtain ⟨hcore, hhistory⟩ := withHistory_eq_some.mp hstep
    dsimp only at hcore hhistory hreceived
    subst hhistory
    have hinv' := hinv.step hfeeds hcore
    have hchunk : label.chunk = [] := chunk_of_terminated hended hinv'.taken
    refine ⟨hinv', ?_, fun i => ?_⟩
    · change peer.TerminatedAt (b ++ label.chunk).length
      rwa [hchunk, List.append_nil]
    · obtain ⟨id, call, hchange⟩ := hinv.change hcore
      rw [← hreceived i]
      by_cases hi : i = id
      · subst hi
        have hself : c'.calls i = some call := by rw [hchange.calls, Function.update_self]
        rw [Core.received_eq hself, hchange.received, hchunk, List.append_nil]
      · simp only [Core.received, hchange.calls, Function.update_of_ne hi]

/-- Behind the end of the stream every call that has received bytes has returned them. -/
def DataReturned (core : Core ι) : Prop :=
  core.shared.state.peerSentEof = true → ∀ id call chunk, core.calls id = some call →
    call.op.reads = true → chunk ≠ [] → call.pc ≠ .unwind (.ok (.data chunk))

omit [DecidableEq ι] in
theorem Receiving.chunk_of_data {chunk : List UInt8}
    (h : Receiving sh id max pc choice effect (.unwind (.ok (.data chunk)))) :
    pc = .io ∧ choice = .read chunk := by
  generalize hpc : PC.unwind (.ok (.data chunk)) = pc' at h
  cases h with
  | eof b _ => cases b <;> simp [PC.finish] at hpc
  | refused b flag e => cases b <;> simp [PC.finish] at hpc
  | passed b flag => cases b <;> cases flag <;> simp [Op.afterEnsure, Op.afterChecks] at hpc
  | read bytes _ _ => exact ⟨rfl, by simpa using hpc.symm⟩
  | closing stage first e => cases stage <;> cases first <;> simp [pollClosing] at hpc
  | _ => simp at hpc

theorem ReadInv.dataReturned (hinv : ReadInv peer core bytes)
    (hfeeds : Feeds peer (core, bytes) label) (h : core.step label = some core')
    (hdata : DataReturned core) : DataReturned core' := by
  intro heof i c chunk hc hreads hne hpc
  have hinv' := hinv.step hfeeds h
  obtain ⟨id, next, hchange⟩ := hinv.change h
  have hkept : core.calls i ≠ some c := by
    intro hc
    rcases hchange.ended heof with heof' | ⟨c', max, hc', hop, hstore⟩
    · exact hdata heof' i c chunk hc hreads hne hpc
    · -- both calls would hold the read gate
      have hat := hinv.logged.at_place id
      have hat' := hinv.logged.at_place i
      rw [Core.readPlace_eq hc', hop, hstore] at hat
      rw [Core.readPlace_eq hc, hpc, Op.readPlace, if_pos hreads] at hat'
      obtain rfl : i = id := Option.some.inj (hat'.symm.trans hat)
      obtain rfl := Option.some.inj (hc.symm.trans hc')
      exact absurd (hpc.symm.trans hstore) (by simp)
  obtain ⟨k, call', hstepped⟩ := Core.stepped h
  by_cases hi : i = k
  · subst hi
    rw [hstepped.calls.1, Function.update_self, Option.some.injEq] at hc
    subst hc
    cases hstepped with
    | called _ op hnone => exact absurd hpc (by simp)
    | dropped _ c effect hc hdrop => exact absurd hpc (by simp)
    | polled _ choice c _ effect hc hop hpolled =>
      simp only [Core.step, hc, Option.map_eq_some_iff] at h
      obtain ⟨⟨c', effect'⟩, hpoll, hcore⟩ := h
      obtain rfl : c' = call' := by simpa using congrFun (congrArg Core.calls hcore) i
      obtain ⟨max, hmax⟩ := Op.eq_receive_of_reads (hop ▸ hreads)
      obtain ⟨-, hreceiving⟩ :=
        receiving_of_poll hmax (hinv.behind i c max hc hmax).reading hpoll
      rw [hpc] at hreceiving
      obtain ⟨hio, rfl⟩ := hreceiving.chunk_of_data
      rw [← hcore, hmax] at heof
      -- no bytes are read behind the end, and the end is not stored by a read
      rcases hreceiving.seen heof with heof' | hstore
      · exact hne (chunk_of_terminated (hinv.ended heof') hinv'.taken)
      · exact absurd (hio.symm.trans hstore) (by simp)
  · rw [hstepped.calls.1, Function.update_of_ne hi] at hc
    exact hkept hc

theorem dataReturned_of_runs
    (h : Runs (withHistory Core.step consumes) (Feeds peer) ({}, []) (core, bytes)) :
    DataReturned core := by
  have hkeeps := h.invariant (fun x => ReadInv peer x.1 x.2 ∧ DataReturned x.1)
    ⟨readInv_init, fun heof => absurd heof Bool.false_ne_true⟩ ?_
  · exact hkeeps.2
  · rintro ⟨c, b⟩ label ⟨c', b'⟩ ⟨hinv, hdata⟩ hfeeds hstep
    obtain ⟨hcore, rfl⟩ := withHistory_eq_some.mp hstep
    exact ⟨hinv.step hfeeds hcore, hinv.dataReturned hfeeds hcore hdata⟩

/-- A `receive` that finds the end of the stream at once. -/
def AtEnd (call : Call) : Prop :=
  (∃ max, call.op = .receive max ∧ max ≠ 0) ∧
    (call.pc = .start ∨ call.pc = .eof false ∨ call.pc = .done (.ok .endOfStream))

omit [DecidableEq ι] in
theorem AtEnd.polled (h : AtEnd call)
    (hpolled : Polled sh id call.op call.pc call.written effect call'.pc call'.written)
    (hop : call'.op = call.op) (heof : sh.state.peerSentEof = true) : AtEnd call' := by
  obtain ⟨⟨max, hmax, hne⟩, hpc⟩ := h
  obtain ⟨op, pc, w⟩ := call
  obtain ⟨op', pc', w'⟩ := call'
  dsimp only at hmax hpc hpolled hop
  subst hop hmax
  refine ⟨⟨max, rfl, hne⟩, ?_⟩
  rcases hpc with rfl | rfl | rfl
  · cases hpolled with
    | entered => exact Or.inr (Or.inl (if_neg hne))
  · cases hpolled with
    | eof _ _ => exact Or.inr (Or.inr rfl)
    | notEof _ hclear => exact absurd (heof.symm.trans hclear) nofun
  · exact absurd hpolled.live not_false

/-- **A `receive` that starts behind the end of the stream returns it.** -/
theorem AtEnd.returns (h : AtEnd call) (hcall : core.calls id = some call)
    (heof : core.shared.state.peerSentEof = true) : ReturnsAlone core id (.ok .endOfStream) := by
  obtain ⟨op, pc, w⟩ := call
  obtain ⟨⟨max, hmax, hne⟩, hpc⟩ := h
  dsimp only at hmax hpc
  subst hmax
  have hload : ∀ core : Core ι, core.shared.state.peerSentEof = true →
      core.calls id = some ⟨.receive max, .eof false, w⟩ →
      ReturnsAlone core id (.ok .endOfStream) := by
    intro core heof hcall
    have hpoll : Call.poll core.shared id ⟨.receive max, .eof false, w⟩ .go =
        some (⟨.receive max, .done (.ok .endOfStream), w⟩, .none) := by
      simp [Call.poll, heof, PC.finish]
    exact .polled (core.step_quiet hcall hpoll) (.returned (Function.update_self ..) rfl)
  rcases hpc with rfl | rfl | rfl
  · have hpoll : Call.poll core.shared id ⟨.receive max, .start, w⟩ .go =
        some (⟨.receive max, .eof false, w⟩, .none) := by
      simp [Call.poll, Op.enter, hne]
    exact .polled (core.step_quiet hcall hpoll) (hload _ heof (Function.update_self ..))
  · exact hload core heof hcall
  · exact .returned hcall rfl

theorem atEnd_of_runs {allowed : Core ι → Label ι → Prop} (hnone : core.calls id = none)
    (heof : core.shared.state.peerSentEof = true) (h : Runs Core.step allowed core core') :
    core'.shared.state.peerSentEof = true ∧ ∀ call max, core'.calls id = some call →
      call.op = .receive max → max ≠ 0 → call.pc = .dropped ∨ AtEnd call := by
  have hcalls := call_behind_of_runs .peerSentEof rfl (fun call => ∀ max,
    call.op = .receive max → max ≠ 0 → call.pc = .dropped ∨ AtEnd call) hnone heof h ?_ ?_ ?_
  · exact ⟨hcalls.1, fun call max hcall => hcalls.2 call hcall max⟩
  · exact fun op max hop hmax => Or.inr ⟨⟨max, hop, hmax⟩, Or.inl rfl⟩
  · intro sh call call' effect hpolled hop' heof hatEnd max hop hmax
    rcases hatEnd max (hop' ▸ hop) hmax with hdropped | hatEnd
    · exact absurd hpolled.live (hdropped ▸ not_false)
    · exact Or.inr (hatEnd.polled hpolled hop' heof)
  · exact fun call _ _ _ _ => Or.inl rfl

/-! ### Exactness -/

/-- What `read_bytes` makes of the outcome of its `receive`. `read_timeout` gives the same, or
drops the call at its deadline. -/
def readBytes (max : ℕ) (outcome : Outcome) : Except Error (List UInt8) :=
  if max = 0 then .ok []
  else match outcome with
    | .ok (.data bytes) => .ok bytes
    | .ok _ => .ok []
    | .error e => .error e

/-- An empty result of `read_bytes` is the end of the stream. -/
theorem readBytes_eq_nil {eof : Bool} {outcome : Outcome} (hanswered : Answered eof max outcome)
    (hmax : max ≠ 0) : readBytes max outcome = .ok [] ↔ outcome = .ok .endOfStream := by
  unfold readBytes
  rw [if_neg hmax]
  rcases outcome with e | _ | _ | bytes | _
  · simp
  · exact hanswered.elim
  · exact hanswered.elim
  · have hne : bytes ≠ [] := fun hnil => hmax (hanswered.mp hnil)
    simp [hne]
  · simp

omit [DecidableEq ι] in
theorem Call.received_of_outcome {chunk : List UInt8} (hop : call.op.reads = true)
    (h : call.outcome = some (.ok (.data chunk))) : call.received = chunk := by
  unfold Call.outcome at h
  unfold Call.received
  rw [if_pos hop]
  split at h
  · next hpc => rw [hpc, Option.some.inj h]; rfl
  · next hpc => rw [hpc, Option.some.inj h]; rfl
  · exact absurd h nofun

theorem Call.outcome_of_received (h : call.received ≠ []) :
    call.outcome = some (.ok (.data call.received)) := by
  unfold Call.received PC.received at h ⊢
  unfold Call.outcome
  split at h
  · next hreads =>
    rw [if_pos hreads]
    split at h
    · next hpc => rw [hpc]
    · next hpc => rw [hpc]
    · exact absurd rfl h
  · exact absurd rfl h

omit [DecidableEq ι] in
theorem DataReturned.done {chunk : List UInt8} (hdata : DataReturned core)
    (heof : core.shared.state.peerSentEof = true) (hcall : core.calls id = some call)
    (hreceived : call.received = chunk) (hne : chunk ≠ []) :
    call.pc = .done (.ok (.data chunk)) := by
  subst hreceived
  have houtcome := Call.outcome_of_received hne
  have hreads : call.op.reads = true := by
    by_contra hreads
    exact hne (if_neg hreads)
  unfold Call.outcome at houtcome
  split at houtcome
  · next hpc =>
    exact absurd (Option.some.inj houtcome ▸ hpc) (hdata heof id call _ hcall hreads hne)
  · next hpc => exact hpc.trans (congrArg PC.done (Option.some.inj houtcome))
  · exact absurd houtcome.symm (Option.some_ne_none _)

/-- **Receiving neither loses, duplicates nor reorders bytes.** What was consumed is what the calls
received, one chunk after the other in read-gate order, and a prefix of the peer's bytes; the end
of the stream is returned only where that prefix is all of them, and by `read_bytes` as an empty
result. Behind it a call that has received data is one that had returned by then, and a call that
starts returns the end. -/
theorem receives_exact
    (h : Runs (withHistory Core.step consumes) (Feeds peer) ({}, []) (core, bytes)) :
    (core.shared.readGate.granted.Nodup ∧
      bytes = core.shared.readGate.granted.flatMap core.received ∧
      (∀ id, core.received id ≠ [] → id ∈ core.shared.readGate.granted) ∧
      bytes = peer.take bytes.length) ∧
    (∀ id call max outcome, core.calls id = some call → call.op = .receive max → max ≠ 0 →
      call.outcome = some outcome →
        (outcome = .ok .endOfStream → peer.TerminatedAt bytes.length) ∧
        (readBytes max outcome = .ok [] ↔ outcome = .ok .endOfStream)) ∧
    (∀ id call max, core.calls id = some call → call.op = .receive max →
      call.outcome = some (.ok .endOfStream) → ∀ core' bytes',
        Runs (withHistory Core.step consumes) (Feeds peer) (core, bytes) (core', bytes') →
        ∀ i c max, core'.calls i = some c → c.op = .receive max → max ≠ 0 →
          (∀ chunk, c.outcome = some (.ok (.data chunk)) → ∃ c₀, core.calls i = some c₀ ∧
            c₀.pc = .done (.ok (.data chunk))) ∧
          (core.calls i = none →
            (∀ outcome, c.outcome = some outcome → outcome = .ok .endOfStream) ∧
            (c.pc ≠ .dropped → ReturnsAlone core' i (.ok .endOfStream)))) := by
  have hinv := readInv_init.of_runs h
  refine ⟨⟨hinv.logged.once.granted_nodup, hinv.logged.log_eq, hinv.logged.mem, hinv.taken⟩,
    fun id call max outcome hcall hop hmax houtcome => ?_,
    fun id call max hcall hop houtcome core' bytes' hruns i c max' hc hcop hmax => ?_⟩
  · have hanswered := hinv.answered hcall hop houtcome
    refine ⟨?_, readBytes_eq_nil hanswered hmax⟩
    rintro rfl
    exact hinv.ended hanswered
  · have heof : core.shared.state.peerSentEof = true := hinv.answered hcall hop houtcome
    have hinv' := hinv.of_runs hruns
    refine ⟨fun chunk hchunk => ?_, fun hnone => ?_⟩
    · have hne : chunk ≠ [] := fun hnil => hmax ((hinv'.answered hc hcop hchunk).mp hnil)
      have hreceived : core.received i = chunk := by
        rw [← hinv.received_of_runs (hinv.ended heof) hruns i, Core.received_eq hc]
        exact Call.received_of_outcome (by rw [hcop]; rfl) hchunk
      cases hc₀ : core.calls i with
      | none => exact absurd hreceived (by simp [Core.received, hc₀, hne.symm])
      | some c₀ =>
        rw [Core.received_eq hc₀] at hreceived
        exact ⟨c₀, rfl, (dataReturned_of_runs h).done heof hc₀ hreceived hne⟩
    · have hcore : Runs Core.step (fun _ _ => True) core core' :=
        hruns.of_withHistory fun _ _ _ => trivial
      obtain ⟨heof', hatEnd⟩ := atEnd_of_runs hnone heof hcore
      rcases hatEnd c max' hc hcop hmax with hdropped | hatEnd
      · refine ⟨fun outcome houtcome => ?_, fun h => absurd hdropped h⟩
        rw [Call.outcome, hdropped] at houtcome
        cases houtcome
      · refine ⟨fun outcome houtcome => ?_, fun _ => hatEnd.returns hc heof'⟩
        unfold Call.outcome at houtcome
        rcases hatEnd.2 with hpc | hpc | hpc <;> rw [hpc] at houtcome
        · cases houtcome
        · cases houtcome
        · exact (Option.some.inj houtcome).symm

/-! Two calls share three bytes, between them one is dropped in the queue, and a fourth finds the
end. The connection is closed, and a fifth call starts. -/

instance (peer : Stream'.Seq UInt8) (x : Core ι × List UInt8) (label : Label ι) :
    Decidable (Feeds peer x label) := by
  unfold Feeds
  split <;> infer_instance

def passingRun (id : ℕ) (chunk : List UInt8) : List (Label ℕ) :=
  List.replicate 5 (Label.poll id .go) ++ [Label.poll id .gate, .poll id .gate] ++
    List.replicate 6 (Label.poll id .go) ++ [Label.poll id (.read chunk)]

def readsRun : List (Label ℕ) :=
  [Label.call 0 (.receive 2), .call 1 (.receive 2), .call 2 (.receive 5), .call 3 (.receive 5)] ++
    passingRun 0 [1, 2] ++ List.replicate 5 (Label.poll 1 .go) ++ [Label.poll 1 .gate, .poll 0 .go,
    .drop 1] ++ passingRun 2 [3] ++ [Label.poll 2 .go] ++ passingRun 3 [] ++
    List.replicate 2 (Label.poll 3 .go)

def endRun : List (Label ℕ) :=
  [Label.call 4 .close] ++ List.replicate 8 (Label.poll 4 .go) ++
    [Label.call 5 (.receive 1), .poll 5 .go]

def peerBytes : Stream'.Seq UInt8 := Stream'.Seq.ofList [1, 2, 3]

def readsCore : Core ℕ × List UInt8 :=
  (runLabels (withHistory Core.step consumes) (fun x l => decide (Feeds peerBytes x l)) ({}, [])
    readsRun).getD ({}, [])

def endCore : Core ℕ × List UInt8 :=
  (runLabels (withHistory Core.step consumes) (fun x l => decide (Feeds peerBytes x l)) readsCore
    endRun).getD ({}, [])

theorem runs_readsCore : Runs (withHistory Core.step consumes) (Feeds peerBytes) ({}, [])
    (readsCore.1, readsCore.2) :=
  runs_of_runLabels (fun _ _ h => of_decide_eq_true h)
    (show runLabels _ (fun x l => decide (Feeds peerBytes x l)) ({}, []) readsRun = some readsCore
      from rfl)

theorem runs_endCore : Runs (withHistory Core.step consumes) (Feeds peerBytes)
    (readsCore.1, readsCore.2) (endCore.1, endCore.2) :=
  runs_of_runLabels (fun _ _ h => of_decide_eq_true h)
    (show runLabels _ (fun x l => decide (Feeds peerBytes x l)) readsCore endRun = some endCore
      from rfl)

theorem receives_exact_example : readsCore.2 = [1, 2, 3] ∧
    readsCore.2 = readsCore.1.shared.readGate.granted.flatMap readsCore.1.received ∧
    ReturnsAlone endCore.1 5 (.ok .endOfStream) := by
  have hexact := receives_exact runs_readsCore
  refine ⟨rfl, hexact.1.2.1, ?_⟩
  exact ((hexact.2.2 3 _ 5 rfl rfl rfl _ _ runs_endCore 5 _ 1 rfl rfl (by decide)).2 rfl).2 nofun

end Transport

end Taunicorn
