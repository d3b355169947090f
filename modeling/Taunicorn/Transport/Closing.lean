import Taunicorn.Transport.Order

/-!
# The closed state

`ConnectionState::close` is a swap of `closed` and three stores, and whoever made the transition
goes on to cancel the two tokens and to empty the slot of the raw stream. `close` and
`fail_connection` both do this, any number of them may race, and a read shutdown stores one of
the flags and cancels one of the tokens on its own.

A call is inside the segment from its swap, or its store, to the last of these steps. There is no
await in between, so no call is dropped there.

## Main results

* `Polled.segment` — how a step moves a call into, through and out of its segment
* `call_behind_of_runs` — what a call made behind a flag keeps while the flag stays set
* `CloseInv.step` — one swap makes the transition, and what the call that made it has done since
* `closed_once_and_completely` — outside the segments the closed state is there or not there
-/

namespace Taunicorn

namespace Transport

variable {ι : Type}

/-- Inside the segment: behind the swap of `closed`, or behind the store of `shutdown_read`. -/
def PC.Closing : PC → Prop
  | .closing stage _ _ => stage ≠ .closed
  | .cancelRead => True
  | _ => False

/-- What `ConnectionState::close` answers to a step: whether the swap has made the transition. -/
def swaps (core : Core ι) : Label ι → List (ι × Bool)
  | .poll id _ =>
    match (core.calls id).map Call.pc with
    | some (.closing .closed _ _) => [(id, !core.shared.state.closed)]
    | _ => []
  | _ => []

/-! ### The steps of a segment -/

/-- What the steps outside the segments do to the flags, the tokens and the slot. -/
structure Keeps (sh sh' : Shared ι) : Prop where
  closed : sh'.state.closed = sh.state.closed
  readShutdown : sh'.state.readShutdown = sh.state.readShutdown
  writeShutdown : sh.state.writeShutdown = true → sh'.state.writeShutdown = true
  closeToken : sh'.closeToken = sh.closeToken
  readShutdownToken : sh'.readShutdownToken = sh.readShutdownToken
  stream : sh'.stream = sh.stream

/-- The steps of a call, seen from the segments. -/
inductive Segment [DecidableEq ι] (sh : Shared ι) (id : ι) (op : Op) : PC → Effect → PC → Prop
  | outside {pc pc' : PC} {effect : Effect} : Keeps sh (sh.perform id op effect) → ¬pc.Closing →
      (∀ stage first error, pc ≠ .closing stage first error) → ¬pc'.Closing →
      Segment sh id op pc effect pc'
  | readShutdown : Segment sh id op .store (.store .readShutdown true) .cancelRead
  | readCancelled : Segment sh id op .cancelRead .cancelRead (.done (.ok .unit))
  | closing (stage : CloseStage) (first : Bool) (error : Option Error) :
      Segment sh id op (.closing stage first error) (pollClosing sh stage first error).2
        (pollClosing sh stage first error).1

variable {sh : Shared ι} {id : ι} {op : Op} {pc pc' : PC} {w w' : ℕ} {effect : Effect}

theorem keeps_perform [DecidableEq ι] (sh : Shared ι) (id : ι) (op : Op)
    (heffect : effect = .none ∨ effect = .request ∨ effect = .leave ∨
      (∃ bytes, effect = .write bytes) ∨ effect = .store .peerSentEof true ∨
      (∃ v, effect = .store .paused v) ∨ effect = .store .writeShutdown true) :
    Keeps sh (sh.perform id op effect) := by
  rcases heffect with rfl | rfl | rfl | ⟨bytes, rfl⟩ | rfl | ⟨v, rfl⟩ | rfl
  case inr.inl =>
    constructor <;> simp [Shared.perform]
  case inr.inr.inl =>
    constructor <;> simp [Shared.perform]
  all_goals exact ⟨rfl, rfl, by simp [Shared.perform, ConnectionState.store], rfl, rfl, rfl⟩

/-- **The steps of a call are those of a segment, or outside.** -/
theorem Polled.segment [DecidableEq ι] (h : Polled sh id op pc w effect pc' w') :
    Segment sh id op pc effect pc' := by
  have hquiet : effect = .none ∨ effect = .request ∨ effect = .leave ∨
      (∃ bytes, effect = .write bytes) → ¬pc.Closing →
      (∀ stage first error, pc ≠ .closing stage first error) → ¬pc'.Closing →
      Segment sh id op pc effect pc' := by
    intro heffect hpc hne hpc'
    refine .outside (keeps_perform sh id op ?_) hpc hne hpc'
    rcases heffect with h | h | h | h <;> simp [h]
  have hfinish : ∀ b outcome, ¬(PC.finish b outcome).Closing := by
    intro b outcome
    cases b <;> exact not_false
  cases h with
  | entered =>
    refine hquiet (Or.inl rfl) not_false (by simp) ?_
    rcases op.enter_cases with ⟨v, h, -⟩ | ⟨h, -⟩ | h | ⟨h, -⟩ | ⟨h, -⟩ <;> rw [h] <;>
      simp [PC.Closing]
  | eof b _ => exact hquiet (Or.inl rfl) not_false (by simp) (hfinish b _)
  | refused b flag _ => exact hquiet (Or.inl rfl) not_false (by simp) (hfinish b _)
  | passed b flag _ =>
    refine hquiet (Or.inl rfl) not_false (by simp) ?_
    rcases op.afterEnsure_cases b flag with ⟨next, h⟩ | ⟨h, -⟩ | ⟨-, ⟨h, -⟩ | h⟩ <;>
      simp [PC.Closing, h]
  | idle b flag _ => exact hquiet (Or.inl rfl) not_false (by simp) (hfinish b _)
  | busy b flag _ =>
    refine hquiet (Or.inl rfl) not_false (by simp) ?_
    cases op <;> cases flag <;> cases b <;> exact not_false
  | requested => exact hquiet (Or.inr (Or.inl rfl)) not_false (by simp) not_false
  | withdrew e _ => exact hquiet (Or.inr (Or.inr (Or.inl rfl))) not_false (by simp) not_false
  | granted _ =>
    refine hquiet (Or.inl rfl) not_false (by simp) ?_
    cases op <;> exact not_false
  | stored hstored =>
    cases Op.stores_of_stored hstored
    · exact .readShutdown
    · exact .outside (keeps_perform sh id _ (by simp)) not_false (by simp) not_false
    · exact .outside (keeps_perform sh id _ (by simp)) not_false (by simp) not_false
    · exact .outside (keeps_perform sh id _ (by simp)) not_false (by simp) not_false
  | readCancelled => exact .readCancelled
  | accepted n _ _ _ => exact hquiet (by simp) not_false (by simp) not_false
  | completed n _ _ _ => exact hquiet (by simp) not_false (by simp) not_false
  | acceptedOnce data n _ _ _ => exact hquiet (by simp) not_false (by simp) not_false
  | failed e _ => exact hquiet (Or.inl rfl) not_false (by simp) fun h => h rfl
  | eofStored => exact .outside (keeps_perform sh id _ (by simp)) not_false (by simp) not_false
  | closing stage first error => exact .closing stage first error
  | released outcome => exact hquiet (Or.inr (Or.inr (Or.inl rfl))) not_false (by simp) not_false
  | _ => exact hquiet (Or.inl rfl) not_false (by simp) not_false

/-! ### The invariant -/

/-- What is known of a call where it stands. A call that has won the swap is in the answers. -/
def Behind (sh : Shared ι) (answers : List (ι × Bool)) (id : ι) (op : Op) : PC → Prop
  | .start => True
  | .closing .closed _ _ => True
  | .closing .paused first _ => sh.state.closed = true ∧ (first = true → (id, true) ∈ answers)
  | .closing .readShutdown first _ =>
    sh.state.closed = true ∧ (first = true → (id, true) ∈ answers)
  | .closing .writeShutdown first _ =>
    sh.state.closed = true ∧ (first = true → (id, true) ∈ answers) ∧ sh.state.readShutdown = true
  | .closing _ first _ =>
    sh.state.closed = true ∧ (first = true ∧ (id, true) ∈ answers) ∧
      sh.state.readShutdown = true ∧ sh.state.writeShutdown = true
  | .cancelRead => op ≠ .close ∧ sh.state.readShutdown = true
  | .gate => op = .close → (id, true) ∈ answers
  | .gateWait => op = .close → (id, true) ∈ answers
  | .io => op = .close → (id, true) ∈ answers
  | .unwind _ => True
  | .done _ => True
  | .dropped => True
  | _ => op ≠ .close

/-- What the call that has won the swap has done, where it stands. -/
def Progress (sh : Shared ι) : PC → Prop
  | .closing .paused true _ => sh.closeToken = false ∧ sh.stream = true
  | .closing .readShutdown true _ => sh.closeToken = false ∧ sh.stream = true
  | .closing .writeShutdown true _ => sh.closeToken = false ∧ sh.stream = true
  | .closing .closeToken true _ => sh.closeToken = false ∧ sh.stream = true
  | .closing .readShutdownToken true _ => sh.closeToken = true ∧ sh.stream = true
  | .closing .stream true _ =>
    sh.closeToken = true ∧ sh.readShutdownToken = true ∧ sh.stream = true
  | _ => sh.closeToken = true ∧ sh.readShutdownToken = true ∧ sh.stream = false ∧
    sh.state.readShutdown = true ∧ sh.state.writeShutdown = true

/-- **The invariant of closing.** -/
structure CloseInv (core : Core ι) (answers : List (ι × Bool)) : Prop where
  wire : WireInv core
  behind : ∀ id call, core.calls id = some call →
    Behind core.shared answers id call.op call.pc
  opened : core.shared.state.closed = false → answers.filter Prod.snd = [] ∧
    core.shared.closeToken = false ∧ core.shared.stream = true
  /-- One call has won the swap. -/
  closed : core.shared.state.closed = true → ∃ id call, answers.filter Prod.snd = [(id, true)] ∧
    core.calls id = some call ∧ Progress core.shared call.pc
  token : core.shared.readShutdownToken = true → core.shared.state.readShutdown = true
  readShutdown : core.shared.state.readShutdown = true → core.shared.readShutdownToken = true ∨
    core.shared.state.closed = true ∨ ∃ id call, core.calls id = some call ∧ call.pc = .cancelRead

variable {sh' : Shared ι} {answers answers' : List (ι × Bool)} {core core' : Core ι}
  {call call' : Call} {label : Label ι}

theorem Behind.mono (h : Behind sh answers id op pc)
    (hclosed : sh.state.closed = true → sh'.state.closed = true)
    (hread : sh.state.readShutdown = true → sh'.state.readShutdown = true)
    (hwrite : sh.state.writeShutdown = true → sh'.state.writeShutdown = true)
    (hsub : answers ⊆ answers') : Behind sh' answers' id op pc := by
  cases pc with
  | closing stage first error =>
    cases stage with
    | closed => trivial
    | paused => exact ⟨hclosed h.1, fun hfirst => hsub (h.2 hfirst)⟩
    | readShutdown => exact ⟨hclosed h.1, fun hfirst => hsub (h.2 hfirst)⟩
    | writeShutdown => exact ⟨hclosed h.1, fun hfirst => hsub (h.2.1 hfirst), hread h.2.2⟩
    | _ => exact ⟨hclosed h.1, ⟨h.2.1.1, hsub h.2.1.2⟩, hread h.2.2.1, hwrite h.2.2.2⟩
  | cancelRead => exact ⟨h.1, hread h.2⟩
  | gate => exact fun hop => hsub (h hop)
  | gateWait => exact fun hop => hsub (h hop)
  | io => exact fun hop => hsub (h hop)
  | _ => exact h

/-- Outside the segment the winner has done everything. -/
theorem Progress.done (h : Progress sh pc) (hpc : ¬pc.Closing) :
    sh.closeToken = true ∧ sh.readShutdownToken = true ∧ sh.stream = false ∧
      sh.state.readShutdown = true ∧ sh.state.writeShutdown = true := by
  cases pc with
  | closing stage first error =>
    obtain rfl : stage = .closed := by
      by_contra hne
      exact hpc hne
    exact h
  | _ => exact h

theorem progress_of_done (pc : PC) (hpc : ∀ stage first error, pc = .closing stage first error →
      stage = .closed ∨ first = false)
    (h : sh.closeToken = true ∧ sh.readShutdownToken = true ∧ sh.stream = false ∧
      sh.state.readShutdown = true ∧ sh.state.writeShutdown = true) : Progress sh pc := by
  cases pc with
  | closing stage first error =>
    rcases hpc stage first error rfl with rfl | rfl
    · exact h
    · cases stage <;> exact h
  | _ => exact h

theorem Progress.mono (h : Progress sh pc) (hclose : sh'.closeToken = sh.closeToken)
    (hstream : sh'.stream = sh.stream)
    (htoken : sh.readShutdownToken = true → sh'.readShutdownToken = true)
    (hread : sh.state.readShutdown = true → sh'.state.readShutdown = true)
    (hwrite : sh.state.writeShutdown = true → sh'.state.writeShutdown = true) :
    Progress sh' pc := by
  have hdone : sh.closeToken = true ∧ sh.readShutdownToken = true ∧ sh.stream = false ∧
      sh.state.readShutdown = true ∧ sh.state.writeShutdown = true →
      sh'.closeToken = true ∧ sh'.readShutdownToken = true ∧ sh'.stream = false ∧
        sh'.state.readShutdown = true ∧ sh'.state.writeShutdown = true := by
    rintro ⟨h₁, h₂, h₃, h₄, h₅⟩
    exact ⟨hclose.trans h₁, htoken h₂, hstream.trans h₃, hread h₄, hwrite h₅⟩
  cases pc with
  | closing stage first error =>
    cases first with
    | false => cases stage <;> exact hdone h
    | true =>
      cases stage with
      | closed => exact hdone h
      | stream => exact ⟨hclose.trans h.1, htoken h.2.1, hstream.trans h.2.2⟩
      | _ => exact ⟨hclose.trans h.1, hstream.trans h.2⟩
  | _ => exact hdone h

theorem closeInv_init : CloseInv ({} : Core ι) [] where
  wire := wireInv_init
  behind _ _ h := absurd h nofun
  opened _ := ⟨rfl, rfl, rfl⟩
  closed h := absurd h nofun
  token h := absurd h nofun
  readShutdown h := absurd h nofun

/-! ### The invariant is kept -/

/-- A step outside the segments keeps what is known of its call. -/
theorem Polled.behind (h : Polled sh id op pc w effect pc' w')
    (hbehind : Behind sh answers id op pc)
    (hpc : ∀ stage first error, pc ≠ .closing stage first error) (hpc' : ¬pc'.Closing) :
    Behind sh answers id op pc' := by
  have hfinish : ∀ b outcome, Behind sh answers id op (.finish b outcome) := by
    intro b outcome
    cases b <;> trivial
  cases h with
  | entered => cases op <;> simp only [Op.enter] <;> (try split) <;> simp [Behind]
  | eof b _ => exact hfinish b _
  | notEof b _ => exact hbehind
  | refused b flag _ => exact hfinish b _
  | passed b flag _ =>
    have hgate : op = .close → (id, true) ∈ answers := fun hop => absurd hop hbehind
    rcases op.afterEnsure_cases b flag with ⟨next, h⟩ | ⟨h, -⟩ | ⟨-, ⟨h, -⟩ | h⟩ <;> rw [h]
    · exact hbehind
    · exact hbehind
    · exact hbehind
    · exact hgate
  | idle b flag _ => exact hfinish b _
  | busy b flag _ =>
    cases op <;> cases flag <;> cases b <;> first | exact absurd rfl hbehind | rintro ⟨⟩
  | dated hop => exact fun h => Op.noConfusion (h.symm.trans hop)
  | overflowed hop => exact fun h => Op.noConfusion (h.symm.trans hop)
  | requested => exact hbehind
  | granted _ => cases op <;> first | exact hbehind | rintro ⟨⟩
  | stored hstored =>
    cases Op.stores_of_stored hstored
    · exact absurd trivial hpc'
    · rintro ⟨⟩
    · trivial
    · trivial
  | openSeen _ => exact hbehind
  | stream _ => exact fun hop => absurd hop hbehind
  | accepted n _ _ _ => exact hbehind
  | readEof hreads =>
    rintro rfl
    cases hreads
  | closing stage first error => exact absurd rfl (hpc stage first error)
  | _ => trivial

variable [DecidableEq ι]

/-- What a stage of a full close, behind the swap, does. -/
structure Stage (sh sh' : Shared ι) (answers : List (ι × Bool)) (id : ι) (op : Op)
    (pc pc' : PC) : Prop where
  behind : Behind sh' answers id op pc'
  progress : Progress sh pc → Progress sh' pc'
  /-- Only the winner touches the tokens and the slot. -/
  quiet : (id, true) ∈ answers ∨ sh'.closeToken = sh.closeToken ∧
    sh'.readShutdownToken = sh.readShutdownToken ∧ sh'.stream = sh.stream
  was : sh.state.closed = true
  closed : sh'.state.closed = true
  readShutdown : sh.state.readShutdown = true → sh'.state.readShutdown = true
  writeShutdown : sh.state.writeShutdown = true → sh'.state.writeShutdown = true
  token : sh'.readShutdownToken = true →
    sh.readShutdownToken = true ∨ sh'.state.readShutdown = true

theorem stage_pollClosing {stage : CloseStage} {first : Bool} {error : Option Error}
    (hstage : stage ≠ .closed) (hbehind : Behind sh answers id op (.closing stage first error)) :
    Stage sh (sh.perform id op (pollClosing sh stage first error).2) answers id op
      (.closing stage first error) (pollClosing sh stage first error).1 := by
  have hwon : first = true → (id, true) ∈ answers := by
    cases stage with
    | closed => exact absurd rfl hstage
    | paused => exact hbehind.2
    | readShutdown => exact hbehind.2
    | writeShutdown => exact hbehind.2.1
    | _ => exact fun _ => hbehind.2.1.2
  have hclosed : sh.state.closed = true := by
    cases stage with
    | closed => exact absurd rfl hstage
    | _ => exact hbehind.1
  cases stage with
  | closed => exact absurd rfl hstage
  | paused =>
    refine ⟨⟨hclosed, hwon⟩, fun h => ?_, Or.inr ⟨rfl, rfl, rfl⟩, hclosed, hclosed, fun h => h,
      fun h => h, Or.inl⟩
    cases first <;> exact h
  | readShutdown =>
    refine ⟨⟨hclosed, hwon, rfl⟩, fun h => ?_, Or.inr ⟨rfl, rfl, rfl⟩, hclosed, hclosed,
      fun _ => rfl, fun h => h, Or.inl⟩
    cases first with
    | false => exact ⟨h.1, h.2.1, h.2.2.1, rfl, h.2.2.2.2⟩
    | true => exact h
  | writeShutdown =>
    refine ⟨?_, fun h => ?_, Or.inr ⟨rfl, rfl, rfl⟩, hclosed, hclosed, fun h => h, fun _ => rfl,
      Or.inl⟩
    · cases first with
      | false => cases error <;> trivial
      | true => exact ⟨hclosed, ⟨rfl, hwon rfl⟩, hbehind.2.2, rfl⟩
    · cases first with
      | false => cases error <;> exact ⟨h.1, h.2.1, h.2.2.1, h.2.2.2.1, rfl⟩
      | true => exact h
  | closeToken =>
    obtain ⟨-, ⟨rfl, hmem⟩, hread, hwrite⟩ := hbehind
    exact ⟨⟨hclosed, ⟨rfl, hmem⟩, hread, hwrite⟩, fun h => ⟨rfl, h.2⟩, Or.inl hmem, hclosed,
      hclosed, fun h => h, fun h => h, Or.inl⟩
  | readShutdownToken =>
    obtain ⟨-, ⟨rfl, hmem⟩, hread, hwrite⟩ := hbehind
    exact ⟨⟨hclosed, ⟨rfl, hmem⟩, hread, hwrite⟩, fun h => ⟨h.1, rfl, h.2⟩, Or.inl hmem, hclosed,
      hclosed, fun h => h, fun h => h, fun _ => Or.inr hread⟩
  | stream =>
    obtain ⟨-, ⟨rfl, hmem⟩, hread, hwrite⟩ := hbehind
    refine ⟨?_, fun h => progress_of_done _ ?_ ⟨h.1, h.2.1, rfl, hread, hwrite⟩, Or.inl hmem,
      hclosed, hclosed, fun h => h, fun h => h, Or.inl⟩
    · cases error with
      | some e => trivial
      | none =>
        simp only [pollClosing]
        split
        · exact fun _ => hmem
        · trivial
    · intro stage first error' h
      simp only [pollClosing] at h
      split at h
      · cases h
      · split at h <;> cases h

omit [DecidableEq ι] in
theorem swaps_eq_nil (hcall : core.calls id = some call)
    (hpc : ∀ first error, call.pc ≠ .closing .closed first error) (choice : Choice) :
    swaps core (.poll id choice) = [] := by
  simp only [swaps, hcall, Option.map_some]
  split
  · next first error hclosing => exact absurd (Option.some.inj hclosing) (hpc first error)
  · rfl

/-- A step outside the segments. -/
theorem CloseInv.outside (hinv : CloseInv core answers) (h : Change core label id call' core')
    (hkeeps : Keeps core.shared core'.shared)
    (hbehind : Behind core.shared answers id call'.op call'.pc)
    (hold : ∀ c, core.calls id = some c → ¬c.pc.Closing) (hnew : ¬call'.pc.Closing) :
    CloseInv core' answers := by
  have hclosed : core.shared.state.closed = true → core'.shared.state.closed = true :=
    fun h => hkeeps.closed.trans h
  have hread : core.shared.state.readShutdown = true → core'.shared.state.readShutdown = true :=
    fun h => hkeeps.readShutdown.trans h
  refine ⟨h.wireInv hinv.wire, fun i c hc => ?_, fun hopen => ?_, fun hshut => ?_, fun htoken => ?_,
    fun hshut => ?_⟩
  · by_cases hi : i = id
    · subst hi
      obtain rfl := Option.some.inj (h.calls_self.symm.trans hc)
      exact hbehind.mono hclosed hread hkeeps.writeShutdown (List.Subset.refl _)
    · exact (hinv.behind i c (h.calls_of_ne hi ▸ hc)).mono hclosed hread hkeeps.writeShutdown
        (List.Subset.refl _)
  · obtain ⟨hanswers, htoken, hstream⟩ := hinv.opened (hkeeps.closed ▸ hopen)
    exact ⟨hanswers, hkeeps.closeToken.trans htoken, hkeeps.stream.trans hstream⟩
  · obtain ⟨i, c, hanswers, hc, hprogress⟩ := hinv.closed (hkeeps.closed ▸ hshut)
    have hmono : ∀ {pc}, Progress core.shared pc → Progress core'.shared pc := fun hp =>
      hp.mono hkeeps.closeToken hkeeps.stream (fun h => hkeeps.readShutdownToken.trans h) hread
        hkeeps.writeShutdown
    by_cases hi : i = id
    · subst hi
      refine ⟨i, call', hanswers, h.calls_self, hmono (progress_of_done _ ?_
        (hprogress.done (hold c hc)))⟩
      intro stage first error hpc
      refine Or.inl ?_
      by_contra hne
      rw [hpc] at hnew
      exact hnew hne
    · exact ⟨i, c, hanswers, (h.calls_of_ne hi).trans hc, hmono hprogress⟩
  · exact hread (hinv.token (hkeeps.readShutdownToken ▸ htoken))
  · rcases hinv.readShutdown (hkeeps.readShutdown ▸ hshut) with htoken | hclosed' | ⟨i, c, hc, hpc⟩
    · exact Or.inl (hkeeps.readShutdownToken.trans htoken)
    · exact Or.inr (Or.inl (hclosed hclosed'))
    · refine Or.inr (Or.inr ⟨i, c, (h.calls_of_ne ?_).trans hc, hpc⟩)
      rintro rfl
      have hout := hold c hc
      rw [hpc] at hout
      exact hout trivial

/-- The store of `shutdown_read`. -/
theorem CloseInv.readShut (hinv : CloseInv core answers) (h : Change core label id call' core')
    (hcall : core.calls id = some call) (hop : call'.op = call.op) (hpc : call.pc = .store)
    (hpc' : call'.pc = .cancelRead)
    (hshared : core'.shared
      = { core.shared with state := { core.shared.state with readShutdown := true } }) :
    CloseInv core' answers := by
  have hne : call.op ≠ .close := by
    have hbehind := hinv.behind id call hcall
    rwa [hpc] at hbehind
  refine ⟨h.wireInv hinv.wire, fun i c hc => ?_, fun hopen => ?_, fun hshut => ?_, fun htoken => ?_,
    fun hshut => ?_⟩
  · rw [hshared]
    by_cases hi : i = id
    · subst hi
      obtain rfl := Option.some.inj (h.calls_self.symm.trans hc)
      rw [hpc', hop]
      exact ⟨hne, rfl⟩
    · exact (hinv.behind i c (h.calls_of_ne hi ▸ hc)).mono (fun h => h) (fun _ => rfl)
        (fun h => h) (List.Subset.refl _)
  · rw [hshared] at hopen ⊢
    exact hinv.opened hopen
  · rw [hshared] at hshut ⊢
    obtain ⟨i, c, hanswers, hc, hprogress⟩ := hinv.closed hshut
    have hmono : ∀ {pc}, Progress core.shared pc → Progress
        { core.shared with state := { core.shared.state with readShutdown := true } } pc :=
      fun hp => hp.mono rfl rfl (fun h => h) (fun _ => rfl) fun h => h
    by_cases hi : i = id
    · subst hi
      obtain rfl := Option.some.inj (hcall.symm.trans hc)
      refine ⟨i, call', hanswers, h.calls_self, hmono ?_⟩
      rw [hpc] at hprogress
      rw [hpc']
      exact hprogress
    · exact ⟨i, c, hanswers, (h.calls_of_ne hi).trans hc, hmono hprogress⟩
  · rw [hshared]
  · exact Or.inr (Or.inr ⟨id, call', h.calls_self, hpc'⟩)

/-- The token of `shutdown_read`. -/
theorem CloseInv.readCancelled (hinv : CloseInv core answers)
    (h : Change core label id call' core') (hcall : core.calls id = some call)
    (hpc : call.pc = .cancelRead) (hpc' : call'.pc = .done (.ok .unit))
    (hshared : core'.shared = { core.shared with readShutdownToken := true }) :
    CloseInv core' answers := by
  have hread : core.shared.state.readShutdown = true := by
    have hbehind := hinv.behind id call hcall
    rw [hpc] at hbehind
    exact hbehind.2
  refine ⟨h.wireInv hinv.wire, fun i c hc => ?_, fun hopen => ?_, fun hshut => ?_, fun _ => ?_,
    fun _ => Or.inl ?_⟩
  · rw [hshared]
    by_cases hi : i = id
    · subst hi
      obtain rfl := Option.some.inj (h.calls_self.symm.trans hc)
      rw [hpc']
      trivial
    · exact (hinv.behind i c (h.calls_of_ne hi ▸ hc)).mono (fun h => h) (fun h => h) (fun h => h)
        (List.Subset.refl _)
  · rw [hshared] at hopen ⊢
    exact hinv.opened hopen
  · rw [hshared] at hshut ⊢
    obtain ⟨i, c, hanswers, hc, hprogress⟩ := hinv.closed hshut
    by_cases hi : i = id
    · subst hi
      obtain rfl := Option.some.inj (hcall.symm.trans hc)
      rw [hpc] at hprogress
      refine ⟨i, call', hanswers, h.calls_self, ?_⟩
      rw [hpc']
      exact ⟨hprogress.1, rfl, hprogress.2.2⟩
    · exact ⟨i, c, hanswers, (h.calls_of_ne hi).trans hc,
        hprogress.mono rfl rfl (fun _ => rfl) (fun h => h) fun h => h⟩
  · rw [hshared]
    exact hread
  · rw [hshared]

/-- The swap, -/
theorem CloseInv.swapped (hinv : CloseInv core answers) (h : Change core label id call' core')
    (hcall : core.calls id = some call) {first : Bool} {error : Option Error}
    (hpc : call.pc = .closing .closed first error)
    (hpc' : call'.pc = .closing .paused (!core.shared.state.closed) error)
    (hshared : core'.shared
      = { core.shared with state := { core.shared.state with closed := true } }) :
    CloseInv core' (answers ++ [(id, !core.shared.state.closed)]) := by
  refine ⟨h.wireInv hinv.wire, fun i c hc => ?_, fun hopen => ?_, fun _ => ?_, fun htoken => ?_,
    fun _ => Or.inr (Or.inl ?_)⟩
  · rw [hshared]
    by_cases hi : i = id
    · subst hi
      obtain rfl := Option.some.inj (h.calls_self.symm.trans hc)
      rw [hpc']
      refine ⟨rfl, fun hwon => List.mem_append_right _ ?_⟩
      rw [hwon]
      exact List.mem_cons_self
    · exact (hinv.behind i c (h.calls_of_ne hi ▸ hc)).mono (fun _ => rfl) (fun h => h) (fun h => h)
        (List.subset_append_left _ _)
  · rw [hshared] at hopen
    exact absurd hopen nofun
  · cases hwas : core.shared.state.closed with
    | false =>
      -- the transition
      obtain ⟨hanswers, htoken, hstream⟩ := hinv.opened hwas
      refine ⟨id, call', by simp [List.filter_append, hanswers], h.calls_self, ?_⟩
      rw [hpc', hwas, hshared]
      exact ⟨htoken, hstream⟩
    | true =>
      obtain ⟨i, c, hanswers, hc, hprogress⟩ := hinv.closed hwas
      refine ⟨i, ?_⟩
      have hfilter : (answers ++ [(id, !true)]).filter Prod.snd = [(i, true)] := by
        simp [List.filter_append, hanswers]
      rw [hshared]
      by_cases hi : i = id
      · subst hi
        obtain rfl := Option.some.inj (hcall.symm.trans hc)
        rw [hpc] at hprogress
        refine ⟨call', hfilter, h.calls_self, progress_of_done _ ?_ hprogress⟩
        rw [hpc', hwas]
        intro stage first' error' heq
        exact Or.inr (PC.closing.inj heq).2.1.symm
      · exact ⟨c, hfilter, (h.calls_of_ne hi).trans hc,
          hprogress.mono rfl rfl (fun h => h) (fun h => h) fun h => h⟩
  · rw [hshared] at htoken ⊢
    exact hinv.token htoken
  · rw [hshared]

/-- and the stages behind it. -/
theorem CloseInv.staged (hinv : CloseInv core answers) (h : Change core label id call' core')
    (hcall : core.calls id = some call)
    (hstage : Stage core.shared core'.shared answers id call'.op call.pc call'.pc) :
    CloseInv core' answers := by
  refine ⟨h.wireInv hinv.wire, fun i c hc => ?_, fun hopen => ?_, fun _ => ?_, fun htoken => ?_,
    fun _ => Or.inr (Or.inl hstage.closed)⟩
  · by_cases hi : i = id
    · subst hi
      obtain rfl := Option.some.inj (h.calls_self.symm.trans hc)
      exact hstage.behind
    · exact (hinv.behind i c (h.calls_of_ne hi ▸ hc)).mono (fun _ => hstage.closed)
        hstage.readShutdown hstage.writeShutdown (List.Subset.refl _)
  · exact absurd (hopen.symm.trans hstage.closed) nofun
  · obtain ⟨i, c, hanswers, hc, hprogress⟩ := hinv.closed hstage.was
    by_cases hi : i = id
    · subst hi
      obtain rfl := Option.some.inj (hcall.symm.trans hc)
      exact ⟨i, call', hanswers, h.calls_self, hstage.progress hprogress⟩
    · refine ⟨i, c, hanswers, (h.calls_of_ne hi).trans hc, ?_⟩
      rcases hstage.quiet with hmem | ⟨hclose, htoken, hstream⟩
      · have hmem' : (id, true) ∈ answers.filter Prod.snd := List.mem_filter.mpr ⟨hmem, rfl⟩
        rw [hanswers, List.mem_singleton] at hmem'
        exact absurd (congrArg Prod.fst hmem').symm hi
      · exact hprogress.mono hclose hstream (fun h => htoken.trans h) hstage.readShutdown
          hstage.writeShutdown
  · rcases hstage.token htoken with htoken | hread
    · exact hstage.readShutdown (hinv.token htoken)
    · exact hread

/-- **The invariant is kept by every step.** -/
theorem CloseInv.step (hinv : CloseInv core answers) (h : core.step label = some core') :
    CloseInv core' (answers ++ swaps core label) := by
  obtain ⟨id, call', hstepped, hchange⟩ := hinv.wire.change h
  cases hstepped with
  | called id op hnone =>
    rw [show swaps core (.call id op) = [] from rfl, List.append_nil]
    exact hinv.outside hchange ⟨rfl, rfl, fun h => h, rfl, rfl, rfl⟩ trivial
      (fun c hc => absurd (hnone.symm.trans hc) nofun) not_false
  | dropped id call effect hcall hdrop =>
    obtain ⟨hpc, heffect⟩ := drop_eq_some hdrop
    rw [show swaps core (.drop id) = [] from rfl, List.append_nil]
    refine hinv.outside hchange (keeps_perform _ _ _ ?_) trivial (fun c hc => ?_) not_false
    · rcases heffect with h | h <;> simp [h]
    · obtain rfl := Option.some.inj (hcall.symm.trans hc)
      rcases hpc with h | h | h <;> rw [h] <;> exact not_false
  | polled id choice call call' effect hcall hop hpolled =>
    have hbehind := hinv.behind id call hcall
    have hsegment := hpolled.segment
    generalize hpc : call.pc = pc at hsegment hbehind
    generalize hpc' : call'.pc = pc' at hsegment
    cases hsegment with
    | outside hkeeps hold hne hnew =>
      rw [swaps_eq_nil hcall fun first error heq => hne _ _ _ (hpc.symm.trans heq), List.append_nil]
      refine hinv.outside hchange hkeeps ?_ (fun c hc => ?_) (by rwa [hpc'])
      · rw [hop]
        exact hpolled.behind (hpc ▸ hbehind) (by rwa [hpc]) (by rwa [hpc'])
      · obtain rfl := Option.some.inj (hcall.symm.trans hc)
        rwa [hpc]
    | readShutdown =>
      rw [swaps_eq_nil hcall (by rw [hpc]; exact nofun), List.append_nil]
      exact hinv.readShut hchange hcall hop hpc hpc' rfl
    | readCancelled =>
      rw [swaps_eq_nil hcall (by rw [hpc]; exact nofun), List.append_nil]
      exact hinv.readCancelled hchange hcall hpc hpc' rfl
    | closing stage first error =>
      by_cases hstage : stage = .closed
      · subst hstage
        have hswaps : swaps core (.poll id choice) = [(id, !core.shared.state.closed)] := by
          simp only [swaps, hcall, Option.map_some, hpc]
        rw [hswaps]
        exact hinv.swapped hchange hcall hpc hpc' rfl
      · rw [swaps_eq_nil hcall fun first' error' heq =>
          hstage (PC.closing.inj (hpc.symm.trans heq)).1, List.append_nil]
        refine hinv.staged hchange hcall ?_
        rw [hpc, hpc', hop]
        exact stage_pollClosing hstage hbehind

theorem closeInv_of_runs {allowed : Core ι × List (ι × Bool) → Label ι → Prop}
    (h : Runs (withHistory Core.step swaps) allowed ({}, []) (core, answers)) :
    CloseInv core answers :=
  h.invariant (fun x => CloseInv x.1 x.2) closeInv_init fun x l x' hinv _ hstep => by
    obtain ⟨hstep, hhistory⟩ := withHistory_eq_some.mp hstep
    rw [hhistory]
    exact hinv.step hstep

/-! ### The closed state -/

/-- The flags that are never taken back. -/
def Flag.lasting : Flag → Bool
  | .paused => false
  | _ => true

theorem ConnectionState.load_store {flag flag' : Flag} {state : ConnectionState} {v : Bool}
    (hflag : flag.lasting = true) (hv : flag'.lasting = true → v = true)
    (hload : state.load flag = true) : (state.store v flag').load flag = true := by
  cases flag <;> cases flag' <;>
    first | exact hload | exact hv rfl | exact absurd hflag Bool.false_ne_true

theorem Shared.load_perform {flag : Flag} (sh : Shared ι) (id : ι) (op : Op) {effect : Effect}
    (heffect : ∀ flag v, effect ≠ .store flag v) (hload : sh.state.load flag = true) :
    (sh.perform id op effect).state.load flag = true :=
  (sh.perform_load id op (heffect flag)).trans hload

theorem Polled.load {flag : Flag} (h : Polled sh id op pc w effect pc' w')
    (hflag : flag.lasting = true) (hload : sh.state.load flag = true) :
    (sh.perform id op effect).state.load flag = true := by
  cases h with
  | stored hstored =>
    cases Op.stores_of_stored hstored <;>
      exact ConnectionState.load_store hflag (by simp [Flag.lasting]) hload
  | eofStored => exact ConnectionState.load_store hflag (fun _ => rfl) hload
  | closing stage first error =>
    cases stage <;>
      first | exact hload | exact ConnectionState.load_store hflag (by simp [Flag.lasting]) hload
  | _ => exact sh.load_perform id op (by simp) hload

/-- `paused` aside, a flag that is set stays set. -/
theorem load_of_step (flag : Flag) (hflag : flag.lasting = true) (h : core.step label = some core')
    (hload : core.shared.state.load flag = true) : core'.shared.state.load flag = true := by
  obtain ⟨id, call', hstepped⟩ := Core.stepped h
  cases hstepped with
  | called id op hnone => exact hload
  | dropped id call effect hcall hdrop =>
    dsimp only
    rwa [state_of_drop _ _ hdrop]
  | polled id choice call call' effect hcall hop hpolled => exact hpolled.load hflag hload

/-- **A call made behind a flag**: what it begins with, and keeps by steps that find the flag set
and when it is dropped, holds of it in any company. -/
theorem call_behind_of_runs {allowed : Core ι → Label ι → Prop} (flag : Flag)
    (hflag : flag.lasting = true) (P : Call → Prop) (hnone : core.calls id = none)
    (hload : core.shared.state.load flag = true) (h : Runs Core.step allowed core core')
    (hstart : ∀ op, P { op })
    (hpolled : ∀ {sh : Shared ι} {call call' : Call} {effect : Effect},
      Polled sh id call.op call.pc call.written effect call'.pc call'.written →
      call'.op = call.op → sh.state.load flag = true → P call → P call')
    (hdropped : ∀ call, P call → P { call with pc := .dropped }) :
    core'.shared.state.load flag = true ∧ ∀ call, core'.calls id = some call → P call := by
  refine h.invariant (fun c => c.shared.state.load flag = true ∧
    ∀ call, c.calls id = some call → P call)
    ⟨hload, fun call hcall => absurd (hcall.symm.trans hnone) (Option.some_ne_none _)⟩ ?_
  rintro c label c' ⟨hload, hP⟩ - hstep
  refine ⟨load_of_step flag hflag hstep hload, fun call hcall => ?_⟩
  obtain ⟨i, call', hstepped⟩ := Core.stepped hstep
  rw [hstepped.calls.1] at hcall
  by_cases hi : id = i
  · subst hi
    rw [Function.update_self, Option.some.injEq] at hcall
    subst hcall
    cases hstepped with
    | called id op hnone => exact hstart op
    | polled id choice call call' effect hcall hop hself =>
      exact hpolled hself hop hload (hP call hcall)
    | dropped id call effect hcall hdrop => exact hdropped call (hP call hcall)
  · rw [Function.update_of_ne hi] at hcall
    exact hP call hcall

/-- The slot of the raw stream is never filled again. -/
theorem stream_of_step (h : core.step label = some core') (hstream : core.shared.stream = false) :
    core'.shared.stream = false := by
  have hperform : ∀ (id : ι) (op : Op) (effect : Effect),
      (core.shared.perform id op effect).stream = false := by
    intro id op effect
    cases effect with
    | takeStream => rfl
    | request => simpa [Shared.perform] using hstream
    | leave => simpa [Shared.perform] using hstream
    | _ => exact hstream
  obtain ⟨id, call', hstepped⟩ := Core.stepped h
  cases hstepped with
  | called id op hnone => exact hstream
  | dropped id call effect hcall hdrop => exact hperform _ _ _
  | polled id choice call call' effect hcall hop hpolled => exact hperform _ _ _

/-- A call gets hold of the raw stream in a step. -/
def Obtains (core core' : Core ι) : Prop :=
  ∃ id call call', core.calls id = some call ∧ call.pc = .stream ∧
    core'.calls id = some call' ∧ call'.pc = .io

omit [DecidableEq ι] in
theorem Polled.stream_of_io (h : Polled sh id op .stream w effect .io w') : sh.stream = true := by
  cases h with
  | stream hfull => exact hfull

theorem not_obtains (h : core.step label = some core') (hstream : core.shared.stream = false) :
    ¬Obtains core core' := by
  rintro ⟨id, call, call', hcall, hpc, hcall', hpc'⟩
  obtain ⟨j, c, hstepped⟩ := Core.stepped h
  obtain ⟨hcalls, -⟩ := hstepped.calls
  rw [hcalls] at hcall'
  by_cases hid : id = j
  · subst hid
    rw [Function.update_self, Option.some.injEq] at hcall'
    subst hcall'
    cases hstepped with
    | called id op hnone => exact absurd (hnone.symm.trans hcall) nofun
    | dropped id old effect hold hdrop => exact absurd hpc' nofun
    | polled id choice old call' effect hold hop hpolled =>
      obtain rfl := Option.some.inj (hcall.symm.trans hold)
      rw [hpc, hpc'] at hpolled
      exact absurd (hstream.symm.trans hpolled.stream_of_io) nofun
  · rw [Function.update_of_ne hid] at hcall'
    obtain rfl := Option.some.inj (hcall.symm.trans hcall')
    exact absurd (hpc.symm.trans hpc') nofun

/-- **The closed state is reached once and completely.** In every interleaving of any calls, some of
them dropped: as soon as the connection is closed, and not before, exactly one call has been
answered that its swap made the transition; `closed` and the directional flags are never taken
back; outside the segments the flags, the tokens and the slot agree; and once the call that made
the transition has left its segment, no call gets hold of the raw stream. -/
theorem closed_once_and_completely
    (h : Runs (withHistory Core.step swaps) (fun _ _ => True) ({}, []) (core, answers)) :
    (answers.filter Prod.snd).length = (if core.shared.state.closed then 1 else 0) ∧
    (∀ core' flag, Runs Core.step (fun _ _ => True) core core' → flag ≠ .paused →
      core.shared.state.load flag = true → core'.shared.state.load flag = true) ∧
    ((∀ id call, core.calls id = some call → ¬call.pc.Closing) →
      (core.shared.state.closed = true ↔ core.shared.closeToken = true) ∧
      (core.shared.closeToken = true ↔ core.shared.stream = false) ∧
      (core.shared.state.closed = true →
        core.shared.state.readShutdown = true ∧ core.shared.state.writeShutdown = true) ∧
      (core.shared.state.readShutdown = true ↔ core.shared.readShutdownToken = true)) ∧
    (∀ id call core' label core'', (id, true) ∈ answers → core.calls id = some call →
      ¬call.pc.Closing → Runs Core.step (fun _ _ => True) core core' →
      core'.step label = some core'' → ¬Obtains core' core'') := by
  have hinv := closeInv_of_runs h
  refine ⟨?_, fun core' flag hruns hflag hload => ?_, fun hout => ?_,
    fun id call core' label core'' hwon hcall hout hruns hstep => ?_⟩
  · cases hclosed : core.shared.state.closed with
    | false => simp [(hinv.opened hclosed).1]
    | true =>
      obtain ⟨i, c, hanswers, -⟩ := hinv.closed hclosed
      simp [hanswers]
  · have hlasting : flag.lasting = true := by
      cases flag <;> first | rfl | exact absurd rfl hflag
    exact hruns.invariant (fun core => core.shared.state.load flag = true) hload
      fun _ _ _ hload _ hstep => load_of_step flag hlasting hstep hload
  · have hread : core.shared.state.readShutdown = true → core.shared.readShutdownToken = true := by
      intro hset
      rcases hinv.readShutdown hset with htoken | hclosed | ⟨i, c, hc, hpc⟩
      · exact htoken
      · obtain ⟨i, c, -, hc, hprogress⟩ := hinv.closed hclosed
        exact (hprogress.done (hout i c hc)).2.1
      · have hclosing := hout i c hc
        rw [hpc] at hclosing
        exact absurd trivial hclosing
    cases hclosed : core.shared.state.closed with
    | false =>
      obtain ⟨-, htoken, hstream⟩ := hinv.opened hclosed
      exact ⟨by simp [htoken], by simp [htoken, hstream], nofun, hread, hinv.token⟩
    | true =>
      obtain ⟨i, c, -, hc, hprogress⟩ := hinv.closed hclosed
      obtain ⟨htoken, -, hstream, hreads, hwrites⟩ := hprogress.done (hout i c hc)
      exact ⟨by simp [htoken], by simp [htoken, hstream], fun _ => ⟨hreads, hwrites⟩, hread,
        hinv.token⟩
  · have hclosed : core.shared.state.closed = true := by
      by_contra hopen
      have hnone := (hinv.opened (by simpa using hopen)).1
      have hmem : (id, true) ∈ answers.filter Prod.snd := List.mem_filter.mpr ⟨hwon, rfl⟩
      rw [hnone] at hmem
      exact absurd hmem List.not_mem_nil
    obtain ⟨i, c, hanswers, hc, hprogress⟩ := hinv.closed hclosed
    have hmem : (id, true) ∈ answers.filter Prod.snd := List.mem_filter.mpr ⟨hwon, rfl⟩
    rw [hanswers, List.mem_singleton] at hmem
    obtain rfl : id = i := congrArg Prod.fst hmem
    obtain rfl := Option.some.inj (hcall.symm.trans hc)
    refine not_obtains hstep ?_
    exact hruns.invariant (fun core => core.shared.stream = false) (hprogress.done hout).2.2.1
      fun _ _ _ hstream _ hstep => stream_of_step hstep hstream

/-! ### Two closers and a reader -/

/-- Two calls of `close` race; the second swap comes before the stores of the first. -/
def closersRun : List (Label ℕ) :=
  [Label.call 0 .close, .call 1 .close, .poll 0 .go, .poll 1 .go, .poll 0 .go, .poll 1 .go]
    ++ List.replicate 3 (Label.poll 1 .go) ++ List.replicate 6 (Label.poll 0 .go)

def closers : Core ℕ × List (ℕ × Bool) :=
  (runLabels (withHistory Core.step swaps) (fun _ _ => true) ({}, []) closersRun).getD ({}, [])

theorem runs_closers :
    Runs (withHistory Core.step swaps) (fun _ _ => True) ({}, []) (closers.1, closers.2) :=
  runs_of_runLabels (fun _ _ _ => trivial)
    (show runLabels _ (fun _ _ => true) ({}, []) closersRun = some closers from rfl)

theorem closed_once_and_completely_closers :
    closers.2 = [(0, true), (1, false)] ∧ closers.1.shared.state.closed = true ∧
      (closers.2.filter Prod.snd).length = (if closers.1.shared.state.closed then 1 else 0) :=
  ⟨rfl, rfl, (closed_once_and_completely runs_closers).1⟩

end Transport

end Taunicorn
