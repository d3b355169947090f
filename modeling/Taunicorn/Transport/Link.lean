import Taunicorn.Lib.Duplex
import Taunicorn.Transport.Reads
import Taunicorn.Transport.Wire

/-!
# Two connections

A connection and its peer, each a core of its own with any number of calls, joined by the two
directions of one local socket. What one side has handed over and the other has not read is in
flight: a raw read that is ready gives a prefix of it, or nothing, where it is empty and the end of
the stream stands behind it.

A direction ends in two ways: the last handle of a raw stream that has left its slot is released,
or the whole connection is discarded. A shutdown of the raw stream alone ends nothing: the reader
sees no end while the writer keeps its raw stream. The core of the reader is left with bytes and an
end; it is not told which of the two ways it was.

## The argument

For the reader the writer's bytes are a sequence that is not known yet. So the invariant of
receiving holds for every list that begins with the bytes on the wire, and once the direction has
ended for these bytes alone. Nothing is written behind the end: of a raw stream that was released no
call has a handle, and in a discarded connection there is no call.

## What is absent

How much fits into a direction, and what becomes of it where a raw stream fails: raw operations
may fail at any time, and a raw write is ready whenever the environment likes.

## Main results

* `Spent.step` — nothing is written behind the release of a raw stream
* `LinkInv.step` — what one step of either side keeps
* `link_delivers`, `end_of_stream_accounts` — what the reader has, and what the end tells it
-/

namespace Taunicorn

namespace Transport

open Stream'

/-! ### Lists as sequences -/

theorem take_ofList (whole : List UInt8) (n : ℕ) :
    (Seq.ofList whole).take n = whole.take n := by
  refine List.ext_getElem? fun i => ?_
  rw [Seq.getElem?_take, List.getElem?_take, Seq.ofList_get?]

theorem terminatedAt_ofList_iff {whole : List UInt8} {n : ℕ} :
    (Seq.ofList whole).TerminatedAt n ↔ whole.length ≤ n := by
  rw [Seq.TerminatedAt, Seq.ofList_get?, List.getElem?_eq_none_iff]

/-! ### The link -/

/-- Two cores, and the two directions between them. -/
structure Link (ι : Type) where
  core : Side → Core ι := fun _ => {}
  /-- How many of the bytes that a side has handed over the other side has read. -/
  taken : Side → ℕ := fun _ => 0
  /-- Behind the bytes of a side stands the end of the stream. -/
  ended : Side → Bool := fun _ => false
  /-- The connection of a side has been discarded. -/
  discarded : Side → Bool := fun _ => false

inductive LinkLabel (ι : Type) where
  | act (side : Side) (label : Label ι)
  /-- The last handle of a raw stream that has left its slot. -/
  | release (side : Side)
  /-- The last handle of the core. -/
  | discard (side : Side)

variable {ι : Type}

/-- The bytes of a side that the other side has not read. -/
def Link.flight (link : Link ι) (side : Side) : List UInt8 :=
  (link.core side).shared.wire.drop (link.taken side)

/-- A call that has a handle of the raw stream. -/
def Call.holds (call : Call) : Bool :=
  match call.pc with
  | .io => true
  | .storeEof => true
  | .closing _ _ (some _) => true
  | .gate => decide (call.op = .close)
  | .gateWait => decide (call.op = .close)
  | _ => false

variable [DecidableEq ι]

/-- **One step of the link.** -/
def Link.step (link : Link ι) : LinkLabel ι → Option (Link ι)
  | .act side label =>
    if link.discarded side then none
    else ((link.core side).step label).map fun core =>
      { link with
        core := Function.update link.core side core
        taken := Function.update link.taken side.other
          (link.taken side.other + label.chunk.length) }
  | .release side => some { link with ended := Function.update link.ended side true }
  | .discard side =>
    some { link with
      ended := Function.update link.ended side true
      discarded := Function.update link.discarded side true }

omit [DecidableEq ι] in
/-- **The environment of a link.** A raw read gives the next bytes in flight, or nothing behind all
of them; a raw stream is released when nobody has a handle any more, and a connection is discarded
when no call is left. -/
def Link.Ready (link : Link ι) : LinkLabel ι → Prop
  | .act side (.poll _ (.read chunk)) => chunk <+: link.flight side.other ∧
      (chunk = [] → link.ended side.other = true ∧ link.flight side.other = [])
  | .act _ _ => True
  | .release side => (link.core side).shared.stream = false ∧
      ∀ id call, (link.core side).calls id = some call → call.holds = false
  | .discard side => ∀ id call, (link.core side).calls id = some call → ¬call.pc.Live

/-! ### Behind the end of a direction -/

variable {core core' : Core ι} {link link' : Link ι} {side : Side} {id : ι} {call : Call}
  {label : Label ι} {answers : List (ι × Bool)}

/-- A step of a call that is not at the raw stream writes nothing. -/
theorem Change.still (h : Change core label id call core')
    (hio : ∀ c, core.calls id = some c → c.op.buffer ≠ [] → c.pc ≠ .io) :
    core'.shared.wire = core.shared.wire ∧ ∀ i, core'.handed i = core.handed i := by
  obtain ⟨bytes, hwire, hhanded, hwrites⟩ := h.wire
  have hempty : bytes = [] := by
    by_contra hne
    obtain ⟨c, hc, hbuffer, hpc⟩ := hwrites hne
    exact hio c hc hbuffer hpc
  subst hempty
  refine ⟨hwire.trans (List.append_nil _), fun i => ?_⟩
  by_cases hi : i = id
  · subst hi
    rw [Core.handed_eq h.calls_self, hhanded, List.append_nil]
  · exact h.handed_of_ne hi

/-- The raw stream has left its slot, and no writing call is at it. -/
structure Spent (core : Core ι) : Prop where
  stream : core.shared.stream = false
  away : ∀ id call, core.calls id = some call → call.op.buffer ≠ [] → ¬Past .stream call.pc

/-- **Nothing is written behind the release of a raw stream.** -/
theorem Spent.step (hspent : Spent core) (hinv : WireInv core) (h : core.step label = some core') :
    Spent core' ∧ core'.shared.wire = core.shared.wire ∧
      ∀ i, core'.handed i = core.handed i := by
  obtain ⟨id, call, -, hchange⟩ := hinv.change h
  refine ⟨⟨stream_of_step h hspent.stream, fun i c hc hbuffer hpast => ?_⟩,
    hchange.still fun c hc hbuffer hpc => ?_⟩
  · by_cases hi : i = id
    · subst hi
      obtain rfl := Option.some.inj (hchange.calls_self.symm.trans hc)
      obtain ⟨c, hc, hop, hpast | ⟨-, hdown, -⟩⟩ := hchange.past .stream hbuffer hpast
      · exact hspent.away i c hc (hop ▸ hbuffer) hpast
      · simp [Barrier.up, hspent.stream] at hdown
    · exact hspent.away i c (hchange.calls_of_ne hi ▸ hc) hbuffer hpast
  · exact hspent.away id c hc hbuffer (by rw [hpc]; trivial)

omit [DecidableEq ι] in
/-- A raw stream that has left its slot has left it behind all stores of the close. -/
theorem CloseInv.of_stream (hinv : CloseInv core answers) (hstream : core.shared.stream = false) :
    core.shared.state.closed = true ∧ core.shared.state.writeShutdown = true := by
  have hclosed : core.shared.state.closed = true := by
    by_contra hopen
    have hfull := (hinv.opened (by simpa using hopen)).2.2
    exact Bool.false_ne_true (hstream.symm.trans hfull)
  obtain ⟨id, call, -, -, hprogress⟩ := hinv.closed hclosed
  have hempty : core.shared.stream ≠ true := by simp [hstream]
  refine ⟨hclosed, ?_⟩
  cases hpc : call.pc with
  | closing stage first error =>
    rw [hpc] at hprogress
    cases first with
    | false => cases stage <;> exact hprogress.2.2.2.2
    | true =>
      cases stage with
      | closed => exact hprogress.2.2.2.2
      | stream => exact absurd hprogress.2.2 hempty
      | _ => exact absurd hprogress.2 hempty
  | _ =>
    rw [hpc] at hprogress
    exact hprogress.2.2.2.2

/-- The end of a direction whose connection is there: the raw stream was released, behind the
close. -/
structure Over (core : Core ι) : Prop where
  spent : Spent core
  closed : core.shared.state.closed = true
  flag : core.shared.state.writeShutdown = true

theorem Over.step (hover : Over core) (hinv : WireInv core) (h : core.step label = some core') :
    Over core' :=
  ⟨(hover.spent.step hinv h).1, load_of_step .closed rfl h hover.closed,
    load_of_step .writeShutdown rfl h hover.flag⟩

omit [DecidableEq ι] in
/-- When the last handle of a raw stream that has left its slot is released. -/
theorem CloseInv.over_of_release (hinv : CloseInv core answers)
    (hstream : core.shared.stream = false)
    (hholds : ∀ id call, core.calls id = some call → call.holds = false) : Over core := by
  obtain ⟨hclosed, hflag⟩ := hinv.of_stream hstream
  refine ⟨⟨hstream, fun id call hcall _ hpast => ?_⟩, hclosed, hflag⟩
  have hio : call.holds = true := by
    unfold Call.holds
    cases hpc : call.pc <;> rw [hpc] at hpast <;>
      first | rfl | exact absurd hpast (by simp [Past])
  exact Bool.false_ne_true ((hholds id call hcall).symm.trans hio)

/-! ### The invariant of a link -/

/-- **The invariant of a link.** -/
structure LinkInv (link : Link ι) : Prop where
  taken_le : ∀ side, link.taken side ≤ (link.core side).shared.wire.length
  /-- Whatever the writer may still write, the reader has received a part of it. -/
  reads : ∀ side whole, (link.core side).shared.wire <+: whole →
    (link.ended side = true → whole = (link.core side).shared.wire) →
    ReadInv (Seq.ofList whole) (link.core side.other)
      ((link.core side).shared.wire.take (link.taken side))
  closes : ∀ side, ∃ answers, CloseInv (link.core side) answers
  idle : ∀ side, link.discarded side = true →
    ∀ id call, (link.core side).calls id = some call → ¬call.pc.Live
  finished : ∀ side, link.ended side = true → link.discarded side = true ∨ Over (link.core side)

omit [DecidableEq ι] in
theorem linkInv_init : LinkInv ({} : Link ι) where
  taken_le _ := Nat.le_refl _
  reads _ _ _ _ := readInv_init
  closes _ := ⟨[], closeInv_init⟩
  idle _ h := absurd h Bool.false_ne_true
  finished _ h := absurd h Bool.false_ne_true

omit [DecidableEq ι] in
/-- A raw read takes bytes in flight. -/
theorem Link.Ready.chunk (h : link.Ready (.act side label)) :
    label.chunk <+: link.flight side.other := by
  cases label with
  | poll id choice =>
    cases choice with
    | read chunk => exact h.1
    | _ => exact List.nil_prefix
  | _ => exact List.nil_prefix

omit [DecidableEq ι] in
/-- What is taken next stands behind what was taken. -/
theorem Link.take_add {chunk : List UInt8} (h : chunk <+: link.flight side) :
    (link.core side).shared.wire.take (link.taken side + chunk.length)
      = (link.core side).shared.wire.take (link.taken side) ++ chunk := by
  rw [List.take_add]
  exact congrArg _ (List.prefix_iff_eq_take.mp h).symm

omit [DecidableEq ι] in
/-- For whatever the writer may still write, the raw reads are those of its bytes. -/
theorem Link.Ready.feeds {whole : List UInt8} (hready : link.Ready (.act side label))
    (hpre : (link.core side.other).shared.wire <+: whole)
    (hended : link.ended side.other = true → whole = (link.core side.other).shared.wire) :
    Feeds (Seq.ofList whole) (link.core side,
      (link.core side.other).shared.wire.take (link.taken side.other)) label := by
  cases label with
  | poll id choice =>
    cases choice with
    | read chunk =>
      obtain ⟨hchunk, hempty⟩ := hready
      refine ⟨?_, fun hnil => ?_⟩
      · dsimp only
        rw [take_ofList, ← List.prefix_iff_eq_take, ← Link.take_add hchunk]
        exact (List.take_prefix _ _).trans hpre
      · obtain ⟨hend, hflight⟩ := hempty hnil
        have hle := List.drop_eq_nil_iff.mp hflight
        rw [terminatedAt_ofList_iff, hended hend, List.length_take]
        exact le_min hle (Nat.le_refl _)
    | _ => trivial
  | _ => trivial

/-- **A step of a call, on either side.** -/
theorem LinkInv.acted (hinv : LinkInv link) (hready : link.Ready (.act side label))
    (hdiscarded : link.discarded side = false) (h : (link.core side).step label = some core') :
    LinkInv { link with
      core := Function.update link.core side core'
      taken := Function.update link.taken side.other
        (link.taken side.other + label.chunk.length) } := by
  obtain ⟨answers, hclose⟩ := hinv.closes side
  have hwire := hclose.wire
  obtain ⟨id, call, -, hchange⟩ := hwire.change h
  obtain ⟨bytes, hgrows, -, -⟩ := hchange.wire
  have hover : link.ended side = true → Over (link.core side) := fun hend =>
    (hinv.finished side hend).resolve_left (by simp [hdiscarded])
  have hchunk := hready.chunk
  have hne := side.other_ne
  refine ⟨fun d => ?_, fun d whole hpre hended => ?_, fun d => ?_, fun d hd => ?_,
    fun d hd => ?_⟩
  all_goals rcases side.eq_or_eq_other d with rfl | rfl
  · simp only [Function.update_self, Function.update_of_ne hne.symm, hgrows, List.length_append]
    exact (hinv.taken_le d).trans (Nat.le_add_right _ _)
  · simp only [Function.update_self, Function.update_of_ne hne]
    have hle := hchunk.length_le
    rw [Link.flight, List.length_drop] at hle
    have := hinv.taken_le side.other
    omega
  · simp only [Function.update_self, Function.update_of_ne hne, Function.update_of_ne hne.symm]
      at hpre hended ⊢
    have hreads := hinv.reads d whole ((hgrows ▸ List.prefix_append _ _).trans hpre) fun hend =>
      (hended hend).trans ((hover hend).spent.step hwire h).2.1
    rwa [hgrows, List.take_append_of_le_length (hinv.taken_le d)]
  · simp only [Side.other_other, Function.update_self, Function.update_of_ne hne]
      at hpre hended ⊢
    have hreads := hinv.reads side.other whole hpre hended
    rw [Side.other_other] at hreads
    rw [Link.take_add hchunk]
    exact hreads.step (hready.feeds hpre hended) h
  · simp only [Function.update_self]
    exact ⟨_, hclose.step h⟩
  · simp only [Function.update_of_ne hne]
    exact hinv.closes side.other
  · exact absurd (hdiscarded.symm.trans hd) Bool.false_ne_true
  · simp only [Function.update_of_ne hne]
    exact hinv.idle side.other hd
  · simp only [Function.update_self]
    exact Or.inr ((hover hd).step hwire h)
  · simp only [Function.update_of_ne hne] at hd ⊢
    exact hinv.finished side.other hd

omit [DecidableEq ι] in
/-- **The end of a direction that is not the end of a call.** -/
theorem LinkInv.cut (hinv : LinkInv link) (discarded : Side → Bool)
    (hkeeps : ∀ d, link.discarded d = true → discarded d = true)
    (hidle : ∀ d, discarded d = true →
      ∀ id call, (link.core d).calls id = some call → ¬call.pc.Live)
    (hover : discarded side = true ∨ Over (link.core side)) :
    LinkInv { link with
      ended := Function.update link.ended side true
      discarded := discarded } := by
  have hended : ∀ d, link.ended d = true → Function.update link.ended side true d = true := by
    intro d hd
    by_cases hne : d = side
    · rw [hne, Function.update_self]
    · rwa [Function.update_of_ne hne]
  refine ⟨hinv.taken_le, fun d whole hpre h => ?_, hinv.closes, hidle, fun d hd => ?_⟩
  · exact hinv.reads d whole hpre fun hd => h (hended d hd)
  · by_cases hne : d = side
    · exact hne ▸ hover
    · dsimp only at hd
      rw [Function.update_of_ne hne] at hd
      exact (hinv.finished d hd).imp_left (hkeeps d)

/-- **What every step of a link keeps.** -/
theorem LinkInv.step {label : LinkLabel ι} (hinv : LinkInv link) (hready : link.Ready label)
    (h : link.step label = some link') : LinkInv link' := by
  cases label with
  | act side label =>
    simp only [Link.step] at h
    split at h
    · exact absurd h.symm (Option.some_ne_none _)
    · next hopen =>
      obtain ⟨core', hstep, rfl⟩ := Option.map_eq_some_iff.mp h
      exact hinv.acted hready (by simpa using hopen) hstep
  | release side =>
    obtain rfl := Option.some.inj h
    obtain ⟨answers, hclose⟩ := hinv.closes side
    exact hinv.cut link.discarded (fun _ hd => hd) hinv.idle
      (Or.inr (hclose.over_of_release hready.1 hready.2))
  | discard side =>
    obtain rfl := Option.some.inj h
    refine hinv.cut _ (fun d hd => ?_) (fun d hd => ?_) (Or.inl (Function.update_self ..))
    · by_cases hne : d = side
      · rw [hne, Function.update_self]
      · rwa [Function.update_of_ne hne]
    · by_cases hne : d = side
      · exact hne ▸ hready
      · rw [Function.update_of_ne hne] at hd
        exact hinv.idle d hd

theorem LinkInv.of_runs {allowed : Link ι → LinkLabel ι → Prop} (hinv : LinkInv link)
    (hallowed : ∀ link label, allowed link label → link.Ready label)
    (h : Runs Link.step allowed link link') : LinkInv link' :=
  h.invariant LinkInv hinv fun _ _ _ hinv hlabel hstep => hinv.step (hallowed _ _ hlabel) hstep

/-! ### What the reader has -/

omit [DecidableEq ι] in
/-- What the reader has received, and then what is in flight, is what the writer has handed over. -/
theorem LinkInv.delivered (hinv : LinkInv link) (side : Side) :
    (link.core side).shared.writeGate.granted.flatMap (link.core side).handed
      = (link.core side.other).shared.readGate.granted.flatMap (link.core side.other).received
        ++ link.flight side := by
  obtain ⟨answers, hclose⟩ := hinv.closes side
  have hreads := hinv.reads side _ (List.prefix_refl _) fun _ => rfl
  rw [← hclose.wire.wire, ← hreads.logged.log_eq, Link.flight, List.take_append_drop]

omit [DecidableEq ι] in
/-- **A reader that has seen the end has everything.** -/
theorem LinkInv.at_end (hinv : LinkInv link)
    (heof : (link.core side.other).shared.state.peerSentEof = true) :
    link.ended side = true ∧ link.flight side = [] := by
  have hends : link.ended side = true := by
    by_contra hopen
    have hreads := hinv.reads side ((link.core side).shared.wire ++ [0])
      (List.prefix_append _ _) fun hend => absurd hend hopen
    have hle := terminatedAt_ofList_iff.mp (hreads.ended heof)
    rw [List.length_append, List.length_singleton, List.length_take] at hle
    omega
  have hreads := hinv.reads side _ (List.prefix_refl _) fun _ => rfl
  have hle := terminatedAt_ofList_iff.mp (hreads.ended heof)
  rw [List.length_take] at hle
  exact ⟨hends, List.drop_eq_nil_iff.mpr (by omega)⟩

/-- A step that takes nothing from the raw stream leaves everybody with what they have. -/
theorem ReadChange.received_of_nil
    (h : ReadChange core label id call core') (hchunk : label.chunk = []) (i : ι) :
    core'.received i = core.received i := by
  by_cases hi : i = id
  · subst hi
    have hself : core'.calls i = some call := by rw [h.calls, Function.update_self]
    rw [Core.received_eq hself, h.received, hchunk, List.append_nil]
  · simp only [Core.received, h.calls, Function.update_of_ne hi]

/-- A direction that has ended and been read to its end stays as it is. -/
structure Finished (side : Side) (link link' : Link ι) : Prop where
  ended : link'.ended side = true
  flight : link'.flight side = []
  wire : (link'.core side).shared.wire = (link.core side).shared.wire
  handed : ∀ i, (link'.core side).handed i = (link.core side).handed i
  received : ∀ i, (link'.core side.other).received i = (link.core side.other).received i

theorem Finished.acted {link'' : Link ι} (h : Finished side link link') (hinv : LinkInv link')
    {d : Side} (hready : link'.Ready (.act d label))
    (hstep : link'.step (.act d label) = some link'') : Finished side link link'' := by
  simp only [Link.step] at hstep
  split at hstep
  · exact absurd hstep.symm (Option.some_ne_none _)
  next hopen =>
  obtain ⟨core', hcore, rfl⟩ := Option.map_eq_some_iff.mp hstep
  have hne := side.other_ne
  rcases side.eq_or_eq_other d with rfl | rfl
  · -- the writer moves, and writes nothing
    obtain ⟨answers, hclose⟩ := hinv.closes d
    have hover := (hinv.finished d h.ended).resolve_left hopen
    obtain ⟨-, hwire, hhanded⟩ := hover.spent.step hclose.wire hcore
    refine ⟨?_, ?_, ?_, fun i => ?_, fun i => ?_⟩
    · simp [h.ended]
    · simpa [Link.flight, hwire, Function.update_of_ne hne.symm] using h.flight
    · simpa [hwire] using h.wire
    · simpa [hhanded i] using h.handed i
    · simpa [Function.update_of_ne hne] using h.received i
  · -- the reader moves, and there is nothing to read
    have hchunk := hready.chunk
    rw [Side.other_other, h.flight, List.prefix_nil] at hchunk
    have hreads := hinv.reads side _ (List.prefix_refl _) fun _ => rfl
    obtain ⟨id, call, hchange⟩ := hreads.change hcore
    refine ⟨?_, ?_, ?_, fun i => ?_, fun i => ?_⟩
    · simpa [Function.update_of_ne hne.symm] using h.ended
    · simpa [Link.flight, hchunk, Function.update_of_ne hne.symm] using h.flight
    · simpa [Function.update_of_ne hne.symm] using h.wire
    · simpa [Function.update_of_ne hne.symm] using h.handed i
    · rw [← h.received i]
      simpa using hchange.received_of_nil hchunk i

theorem Finished.of_runs {allowed : Link ι → LinkLabel ι → Prop} (hinv : LinkInv link)
    (hallowed : ∀ link label, allowed link label → link.Ready label)
    (hended : link.ended side = true) (hflight : link.flight side = [])
    (h : Runs Link.step allowed link link') : Finished side link link' := by
  have hkeeps := h.invariant (fun l => LinkInv l ∧ Finished side link l)
    ⟨hinv, hended, hflight, rfl, fun _ => rfl, fun _ => rfl⟩ ?_
  · exact hkeeps.2
  · rintro l label l' ⟨hinv, hfinished⟩ hlabel hstep
    have hready := hallowed l label hlabel
    refine ⟨hinv.step hready hstep, ?_⟩
    have hsets : ∀ d, Function.update l.ended d true side = true := by
      intro d
      by_cases hd : side = d
      · rw [hd, Function.update_self]
      · rw [Function.update_of_ne hd]
        exact hfinished.ended
    cases label with
    | act d label => exact hfinished.acted hinv hready hstep
    | release d =>
      obtain rfl := Option.some.inj hstep
      exact { hfinished with ended := hsets d }
    | discard d =>
      obtain rfl := Option.some.inj hstep
      exact { hfinished with ended := hsets d }

/-- **The bytes of a link.** In every interleaving of any calls on both sides, some of them
dropped: what the writer's calls have handed over, in the order of its write gate, is what the
reader's calls have received, in the order of its read gate, and then what is in flight. Once a
call has returned the end of the stream, nothing is in flight, the writer's connection is closed
and its raw stream gone, or it is discarded, and in no continuation does any call hand over or
receive a byte of this direction. -/
theorem link_delivers (h : Runs Link.step Link.Ready ({} : Link ι) link) (side : Side) :
    (link.core side).shared.writeGate.granted.Nodup ∧
    (link.core side.other).shared.readGate.granted.Nodup ∧
    (link.core side).shared.writeGate.granted.flatMap (link.core side).handed
      = (link.core side.other).shared.readGate.granted.flatMap (link.core side.other).received
        ++ link.flight side ∧
    ∀ id call max, (link.core side.other).calls id = some call → call.op = .receive max →
      call.outcome = some (.ok .endOfStream) →
        link.flight side = [] ∧
        (((link.core side).shared.state.closed = true ∧
            (link.core side).shared.state.writeShutdown = true ∧
            (link.core side).shared.stream = false) ∨ link.discarded side = true) ∧
        ∀ link', Runs Link.step Link.Ready link link' →
          (∀ i, (link'.core side).handed i = (link.core side).handed i) ∧
          ∀ i, (link'.core side.other).received i = (link.core side.other).received i := by
  have hinv := linkInv_init.of_runs (fun _ _ hlabel => hlabel) h
  obtain ⟨answers, hclose⟩ := hinv.closes side
  have hreads := hinv.reads side _ (List.prefix_refl _) fun _ => rfl
  refine ⟨hclose.wire.once.granted_nodup, hreads.logged.once.granted_nodup,
    hinv.delivered side, fun id call max hcall hop houtcome => ?_⟩
  obtain ⟨hended, hflight⟩ := hinv.at_end (hreads.answered hcall hop houtcome)
  refine ⟨hflight, ?_, fun link' hruns => ?_⟩
  · exact (hinv.finished side hended).symm.imp_left fun hover =>
      ⟨hover.closed, hover.flag, hover.spent.stream⟩
  · have hfinished := Finished.of_runs hinv (fun _ _ hlabel => hlabel) hended hflight hruns
    exact ⟨hfinished.handed, hfinished.received⟩

/-! ### What the end tells the reader -/

/-- The environment, and no writer of one side is dropped. -/
def Link.Keeping (side : Side) (link : Link ι) : LinkLabel ι → Prop
  | .act d label => link.Ready (.act d label) ∧ (d = side → KeepsWriters (link.core d) label)
  | label => link.Ready label

omit [DecidableEq ι] in
theorem Link.Keeping.ready {label : LinkLabel ι} (h : link.Keeping side label) :
    link.Ready label := by
  cases label with
  | act d label => exact h.1
  | _ => exact h

/-- One side of a run is a run of its core. -/
theorem runs_core (h : Runs Link.step (Link.Keeping side) ({} : Link ι) link) :
    Runs Core.step KeepsWriters {} (link.core side) := by
  refine h.map (fun link => link.core side) fun l label l' hlabel hstep => ?_
  cases label with
  | act d label =>
    simp only [Link.step] at hstep
    split at hstep
    · exact absurd hstep.symm (Option.some_ne_none _)
    obtain ⟨core', hcore, rfl⟩ := Option.map_eq_some_iff.mp hstep
    by_cases hd : d = side
    · subst hd
      refine Or.inr ⟨label, hlabel.2 rfl, ?_⟩
      simpa using hcore
    · exact Or.inl (Function.update_of_ne (Ne.symm hd) ..)
  | release d =>
    obtain rfl := Option.some.inj hstep
    exact Or.inl rfl
  | discard d =>
    obtain rfl := Option.some.inj hstep
    exact Or.inl rfl

omit [DecidableEq ι] in
/-- In a connection that was discarded without a close, whoever has handed over bytes has
succeeded. -/
theorem LinkInv.succeeded (hinv : LinkInv link) (horder : OrderInv (link.core side))
    (hended : link.ended side = true) (hopen : (link.core side).shared.state.closed = false)
    (hcall : (link.core side).calls id = some call) (hhanded : call.handed ≠ []) :
    ∃ v, call.outcome = some (.ok v) := by
  have hlive : ¬call.pc.Live := by
    intro hlive
    rcases hinv.finished side hended with hdiscarded | hover
    · exact hinv.idle side hdiscarded id call hcall hlive
    · exact Bool.false_ne_true (hopen.symm.trans hover.closed)
  have hsound := horder.wire.sound id call hcall
  have hundropped := horder.undropped id call hcall (Call.buffer_ne_nil hhanded)
  unfold Call.outcome
  cases hpc : call.pc with
  | done outcome =>
    rw [hpc] at hsound
    cases outcome with
    | ok v => exact ⟨v, rfl⟩
    | error e =>
      rcases hsound with h0 | ⟨-, -, hclosed⟩
      · exact absurd (Call.handed_eq_nil h0) hhanded
      · exact absurd (hopen.symm.trans hclosed) Bool.false_ne_true
  | dropped => exact absurd hpc hundropped
  | panicked =>
    rw [hpc] at hsound
    exact absurd (Call.handed_eq_nil hsound) hhanded
  | _ => exact absurd (by rw [hpc]; trivial) hlive

/-- **What the end of the stream tells the reader.** Where no writer was dropped and a call has
returned the end, the bytes received are what the writer's successful calls account for, in the
order of its write gate, and then at most a proper prefix of the buffer of one call that has not
succeeded. If the writer's connection was discarded without a close there is no such prefix: every
call that has handed over a byte has succeeded, and what a `send` has succeeded with has arrived in
one piece. -/
theorem end_of_stream_accounts {max : ℕ}
    (h : Runs Link.step (Link.Keeping side) ({} : Link ι) link)
    (hcall : (link.core side.other).calls id = some call) (hop : call.op = .receive max)
    (houtcome : call.outcome = some (.ok .endOfStream)) :
    ∃ last,
      (link.core side.other).shared.readGate.granted.flatMap (link.core side.other).received
        = (link.core side).shared.writeGate.granted.flatMap (link.core side).delivered ++ last ∧
      (last = [] ∨ ∃ i c, i ∈ (link.core side).shared.writeGate.granted ∧
        (link.core side).calls i = some c ∧ (∀ v, c.outcome ≠ some (.ok v)) ∧
        last <+: c.op.buffer ∧ last ≠ c.op.buffer) ∧
      ((link.core side).shared.state.closed = false → last = [] ∧
        (∀ i c, (link.core side).calls i = some c → c.handed ≠ [] →
          ∃ v, c.outcome = some (.ok v)) ∧
        ∀ i c data, (link.core side).calls i = some c → c.op = .send data →
          c.outcome = some (.ok .unit) → data <:+:
            (link.core side.other).shared.readGate.granted.flatMap
              (link.core side.other).received) := by
  have hinv := linkInv_init.of_runs (fun _ _ hlabel => hlabel.ready) h
  have horder := orderInv_of_runs (runs_core h)
  have hreads := hinv.reads side _ (List.prefix_refl _) fun _ => rfl
  obtain ⟨hended, hflight⟩ := hinv.at_end (hreads.answered hcall hop houtcome)
  have hall := hinv.delivered side
  rw [hflight, List.append_nil, ← horder.wire.wire] at hall
  obtain ⟨last, hsplit, hlast, -⟩ := horder.torn.wire_split horder.wire
  refine ⟨last, hall.symm.trans hsplit, ?_, fun hopen => ⟨?_, fun i c hc hhanded => ?_, ?_⟩⟩
  · rcases hlast with hnil | ⟨i, hmem, hne, heq⟩
    · exact Or.inl hnil
    · obtain ⟨c, hc, -, -, hfailed, hlt, -⟩ := horder.wire.loose hne
      rw [Core.handed_eq hc] at heq
      refine Or.inr ⟨i, c, hmem, hc, hfailed, heq ▸ List.take_prefix _ _, fun hbuffer => ?_⟩
      have hlen := congrArg List.length (heq.symm.trans hbuffer)
      rw [Call.handed, List.length_take] at hlen
      omega
  · rcases hlast with hnil | ⟨i, hmem, hne, heq⟩
    · exact hnil
    · obtain ⟨c, hc, hhanded, -, hfailed, -⟩ := horder.wire.loose hne
      obtain ⟨v, hv⟩ := hinv.succeeded horder hended hopen hc hhanded
      exact absurd hv (hfailed v)
  · exact hinv.succeeded horder hended hopen hc hhanded
  · intro i c data hc hsend hv
    have hdelivered : (link.core side).delivered i = data := by
      simp only [Core.delivered, hc, hv, hsend, Op.delivered]
    by_cases hdata : data = []
    · exact hdata ▸ List.nil_infix
    have hmem := horder.wire.mem_of_delivered (hdelivered ▸ hdata)
    obtain ⟨before, after, hgranted⟩ := List.append_of_mem hmem
    rw [← hall, hsplit, hgranted]
    refine ⟨before.flatMap (link.core side).delivered,
      after.flatMap (link.core side).delivered ++ last, ?_⟩
    simp [hdelivered]

/-! ### One message and the end

The left side sends three bytes in two pieces, and the right side reads two of them and the third.
Then the left connection is closed and its raw stream released, or it is discarded, and the right
side reads the end. -/

/-- The answers of the environment that can be checked. -/
def Link.check (link : Link ι) : LinkLabel ι → Bool
  | .act side (.poll _ (.read chunk)) => chunk.isPrefixOf (link.flight side.other) &&
      (!chunk.isEmpty || link.ended side.other && (link.flight side.other).isEmpty)
  | .act _ (.drop _) => false
  | .act _ _ => true
  | _ => false

omit [DecidableEq ι] in
theorem Link.keeping_of_check {label : LinkLabel ι} (h : link.check label = true) :
    link.Keeping side label := by
  cases label with
  | act d label =>
    cases label with
    | poll id choice =>
      refine ⟨?_, fun _ => trivial⟩
      cases choice with
      | read chunk =>
        simp only [Link.check, Bool.and_eq_true, List.isPrefixOf_iff_prefix, Bool.or_eq_true,
          Bool.not_eq_true', List.isEmpty_eq_false_iff, List.isEmpty_iff] at h
        exact ⟨h.1, fun hnil => h.2.resolve_left fun hne => hne hnil⟩
      | _ => trivial
    | call id op => exact ⟨trivial, fun _ => trivial⟩
    | drop id => exact absurd h Bool.false_ne_true
  | _ => exact absurd h Bool.false_ne_true

/-- A call on one side, to the raw stream. -/
def enterCall (side : Side) (id : ℕ) (op : Op) (steps later : ℕ) : List (LinkLabel ℕ) :=
  .act side (.call id op) :: (List.replicate steps (Label.poll id .go) ++
    [Label.poll id .gate, .poll id .gate] ++ List.replicate later (Label.poll id .go)).map
      (LinkLabel.act side)

def messageRun : List (LinkLabel ℕ) :=
  enterCall .left 0 (.send [1, 2, 3]) 4 5 ++ [.act .left (.poll 0 (.accept 2))] ++
    enterCall .right 0 (.receive 2) 5 6 ++ [.act .right (.poll 0 (.read [1, 2]))] ++
    [.act .left (.poll 0 (.accept 1)), .act .left (.poll 0 .go), .act .right (.poll 0 .go)] ++
    enterCall .right 1 (.receive 2) 5 6 ++
    [.act .right (.poll 1 (.read [3])), .act .right (.poll 1 .go)]

def leftCloseRun : List (LinkLabel ℕ) :=
  enterCall .left 1 .close 8 0 ++ [.act .left (.poll 1 .complete), .act .left (.poll 1 .go)]

def readEndRun : List (LinkLabel ℕ) :=
  enterCall .right 2 (.receive 2) 5 6 ++
    [.act .right (.poll 2 (.read [])), .act .right (.poll 2 .go), .act .right (.poll 2 .go)]

/-- What the checked steps lead to. -/
def Link.after (link : Link ℕ) (labels : List (LinkLabel ℕ)) : Link ℕ :=
  (runLabels Link.step Link.check link labels).getD {}

def messageLink : Link ℕ := ({} : Link ℕ).after messageRun

def closedLink : Link ℕ := messageLink.after leftCloseRun

/-- The right side has read the end behind the release. -/
def releasedLink : Link ℕ := ((closedLink.step (.release .left)).getD {}).after readEndRun

/-- The right side has read the end of a connection that was discarded. -/
def discardedLink : Link ℕ := ((messageLink.step (.discard .left)).getD {}).after readEndRun

theorem runs_after {link : Link ℕ} {labels : List (LinkLabel ℕ)} (side : Side)
    (h : runLabels Link.step Link.check link labels = some (link.after labels)) :
    Runs Link.step (Link.Keeping side) link (link.after labels) :=
  runs_of_runLabels (fun _ _ h => Link.keeping_of_check h) h

set_option maxRecDepth 2000 in
theorem runs_messageLink (side : Side) : Runs Link.step (Link.Keeping side) {} messageLink :=
  runs_after side rfl

set_option maxRecDepth 4000 in
theorem runs_releasedLink (side : Side) : Runs Link.step (Link.Keeping side) {} releasedLink := by
  have hready : closedLink.Ready (.release .left) := by
    refine ⟨rfl, ?_⟩
    rintro (_ | _ | id) call hcall
    · obtain rfl := Option.some.inj hcall
      rfl
    · obtain rfl := Option.some.inj hcall
      rfl
    · exact absurd hcall nofun
  have hclosed : Runs Link.step (Link.Keeping side) {} closedLink :=
    (runs_messageLink side).trans (runs_after side rfl)
  have hkeeps : closedLink.Keeping side (.release .left) := hready
  exact (hclosed.tail hkeeps rfl).trans (runs_after side rfl)

set_option maxRecDepth 4000 in
theorem runs_discardedLink (side : Side) :
    Runs Link.step (Link.Keeping side) {} discardedLink := by
  have hready : messageLink.Ready (.discard .left) := by
    rintro (_ | id) call hcall
    · obtain rfl := Option.some.inj hcall
      exact not_false
    · exact absurd hcall nofun
  have hkeeps : messageLink.Keeping side (.discard .left) := hready
  exact ((runs_messageLink side).tail hkeeps rfl).trans (runs_after side rfl)

set_option maxRecDepth 4000 in
theorem link_delivers_releasedLink :
    (releasedLink.core .right).shared.readGate.granted.flatMap (releasedLink.core .right).received
      = [1, 2, 3] ∧ releasedLink.flight .left = [] ∧
    ∀ link', Runs Link.step Link.Ready releasedLink link' →
      ∀ i, (link'.core .right).received i = (releasedLink.core .right).received i := by
  have hdelivers := link_delivers ((runs_releasedLink .left).mono fun _ _ h => h.ready) .left
  have hend := hdelivers.2.2.2 2 ⟨.receive 2, .done (.ok .endOfStream), 0⟩ 2 rfl rfl rfl
  exact ⟨rfl, hend.1, fun link' hruns => (hend.2.2 link' hruns).2⟩

set_option maxRecDepth 4000 in
theorem end_of_stream_accounts_discardedLink :
    (discardedLink.core .left).delivered 0 = [1, 2, 3] ∧
      [1, 2, 3] <:+: (discardedLink.core .right).shared.readGate.granted.flatMap
        (discardedLink.core .right).received := by
  have hcall : (discardedLink.core .right).calls 2
      = some ⟨.receive 2, .done (.ok .endOfStream), 0⟩ := rfl
  obtain ⟨last, -, -, hopen⟩ :=
    end_of_stream_accounts (runs_discardedLink .left) hcall rfl rfl
  exact ⟨rfl, (hopen rfl).2.2 0 ⟨.send [1, 2, 3], .done (.ok .unit), 3⟩ [1, 2, 3] rfl rfl rfl⟩

end Transport

end Taunicorn
