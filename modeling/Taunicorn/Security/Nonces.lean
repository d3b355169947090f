import Taunicorn.Security.SenderOrder

/-!
# Nonces

A call of `send` reads the counter, encrypts under it, and advances it after the frame has been
handed over. A call that ends between the two leaves the counter where it was, with its nonce used:
a plaintext too long for a frame, a paused or closed transport, a failed write, a dropped future.
The next call uses the nonce again.

`Retries` is the condition under which this does no harm: a call that encrypts comes after one that
has advanced the counter, or repeats the plaintext of the last one that encrypted.

## Main results

* `SealInv.step` — the sequence numbers of the calls that have encrypted
* `nonces_unique_of_retries` — the condition is enough, and its first violation reuses a nonce
* `nonce_reuse` — a run that reuses one
-/

namespace Taunicorn

namespace Security

open StreamProg Transport FifoMutex

variable {ι κ : Type}

/-- No two calls of `encrypt` under one key use one nonce for different plaintexts. -/
def NoncesUnique (events : List (ι × Event)) : Prop :=
  ∀ id key nonce aad plaintext ciphertext,
    (id, Event.encrypt key nonce aad plaintext ciphertext) ∈ events →
    ∀ id' aad' plaintext' ciphertext',
      (id', Event.encrypt key nonce aad' plaintext' ciphertext') ∈ events →
      plaintext = plaintext'

/-- **The condition.** Where a call of `send` is about to encrypt, the last call that has encrypted
has advanced the counter, or has the same plaintext. -/
def Retries (w : Sender ι κ) (label : SendLabel ι κ) : Prop :=
  ∀ id call event next, label = .poll id → w.sends id = some call →
    call.pc = .running (.note event next) →
    ∀ last old, w.events.getLast? = some last → w.sends last.1 = some old →
      old.pc.committed = true ∨ old.plaintext = call.plaintext

/-- A call that has read the counter. -/
def SendPC.Acquired : SendPC → Prop
  | .start => False
  | .locking => False
  | _ => True

/-- What is left of `send` once it has encrypted, unless it fails. -/
def PastSeal : Prog DirectionState → Prop
  | .send _ _ => True
  | .pure _ => True
  | _ => False

variable {cr : Crypto} {transcriptHash : Bytes transcriptHashSize} {state : DirectionState}
  {connection : SecureConnection} {w w' : Sender ι κ} {label : SendLabel ι κ} {id : ι}
  {call : SendCall}

/-- `send` encrypts before it hands anything over. -/
theorem not_pastSeal_send (state : DirectionState) (plaintext : List UInt8) :
    ¬PastSeal (send cr transcriptHash state plaintext) := by
  cases hnext : checkedSucc state.sequence with
  | none => rw [send, hnext]; exact fun h => h
  | some next => rw [send_eq hnext, encrypt, note_bind]; exact fun h => h

/-! ### The steps, for those who have encrypted -/

variable [DecidableEq ι] [DecidableEq κ]

/-- A call that has read the counter keeps its number and its plaintext. -/
theorem Sender.Stepped.acquired (h : w.Stepped cr transcriptHash label w')
    (hcall : w.sends id = some call) (hacquired : call.pc.Acquired) :
    ∃ call', w'.sends id = some call' ∧ call'.plaintext = call.plaintext ∧
      call'.sequence = call.sequence ∧ call'.pc.Acquired := by
  have hset : ∀ {i old new}, w.sends i = some old → (i = id → old.pc.Acquired →
      new.plaintext = old.plaintext ∧ new.sequence = old.sequence ∧ new.pc.Acquired) →
      ∃ call', (w.set i new).sends id = some call' ∧ call'.plaintext = call.plaintext ∧
        call'.sequence = call.sequence ∧ call'.pc.Acquired := by
    intro i old new hold hnew
    by_cases hi : i = id
    · subst hi
      obtain rfl := Option.some.inj (hcall.symm.trans hold)
      exact ⟨new, w.set_sends_self i new, hnew rfl hacquired⟩
    · exact ⟨call, by rw [w.set_sends_of_ne new (Ne.symm hi), hcall], rfl, rfl, hacquired⟩
  cases h with
  | called i plaintext hnone =>
    have hne : id ≠ i := by
      rintro rfl
      exact absurd (hnone.symm.trans hcall) nofun
    exact ⟨call, by rw [w.set_sends_of_ne _ hne, hcall], rfl, rfl, hacquired⟩
  | requested i old hold hpc => exact hset hold fun _ hacq => by rw [hpc] at hacq; exact hacq.elim
  | locked i old hold hpc _ => exact hset hold fun _ hacq => by rw [hpc] at hacq; exact hacq.elim
  | committed i old state hold hpc => exact hset hold fun _ _ => ⟨rfl, rfl, trivial⟩
  | failed i old e hold hpc => exact hset hold fun _ _ => ⟨rfl, rfl, trivial⟩
  | noted i old event next hold hpc => exact hset hold fun _ _ => ⟨rfl, rfl, trivial⟩
  | began => exact ⟨call, hcall, rfl, rfl, hacquired⟩
  | sent i old bytes next inner v hold _ _ _ => exact hset hold fun _ _ => ⟨rfl, rfl, trivial⟩
  | refused i old bytes next inner e hold _ _ _ => exact hset hold fun _ _ => ⟨rfl, rfl, trivial⟩
  | returned i old outcome hold _ => exact hset hold fun _ _ => ⟨rfl, rfl, trivial⟩
  | unwound i old hold _ => exact hset hold fun _ _ => ⟨rfl, rfl, trivial⟩
  | droppedStart i old hold hpc => exact hset hold fun _ _ => ⟨rfl, rfl, trivial⟩
  | droppedLocking i old hold hpc => exact hset hold fun _ _ => ⟨rfl, rfl, trivial⟩
  | droppedSending i old bytes next core hold _ _ => exact hset hold fun _ _ => ⟨rfl, rfl, trivial⟩
  | beside => exact ⟨call, hcall, rfl, rfl, hacquired⟩

/-- A step encrypts, or leaves the history alone, and then nobody is newly past its encryption. -/
theorem Sender.Stepped.seals (h : w.Stepped cr transcriptHash label w') :
    (∃ id call event next, label = .poll id ∧ w.sends id = some call ∧
      call.pc = .running (.note event next) ∧
      w' = { w.set id { call with pc := .running next } with
        events := w.events ++ [(id, event)] }) ∨
    (w'.events = w.events ∧ ∀ k call prog, w'.sends k = some call → call.pc = .running prog →
      PastSeal prog → ∃ old prog', w.sends k = some old ∧ old.pc = .running prog' ∧
        PastSeal prog') := by
  have hset : ∀ {i old new}, w.sends i = some old → (∀ prog, new.pc = .running prog →
      PastSeal prog → ∃ prog', old.pc = .running prog' ∧ PastSeal prog') →
      ∀ k call prog, (w.set i new).sends k = some call → call.pc = .running prog →
      PastSeal prog → ∃ old prog', w.sends k = some old ∧ old.pc = .running prog' ∧
        PastSeal prog' := by
    intro i old new hold hnew k call prog hcall hpc hpast
    by_cases hk : k = i
    · subst hk
      rw [w.set_sends_self, Option.some.injEq] at hcall
      subst hcall
      obtain ⟨prog', hprog', hpast'⟩ := hnew prog hpc hpast
      exact ⟨old, prog', hold, hprog', hpast'⟩
    · rw [w.set_sends_of_ne new hk] at hcall
      exact ⟨call, prog, hcall, hpc, hpast⟩
  have hsame : ∀ k call prog, w.sends k = some call → call.pc = .running prog →
      PastSeal prog → ∃ old prog', w.sends k = some old ∧ old.pc = .running prog' ∧
        PastSeal prog' := fun k call prog hcall hpc hpast => ⟨call, prog, hcall, hpc, hpast⟩
  cases h with
  | noted i old event next hold hpc => exact Or.inl ⟨i, old, event, next, rfl, hold, hpc, rfl⟩
  | called i plaintext hnone =>
    refine Or.inr ⟨rfl, fun k call prog hcall hpc hpast => ?_⟩
    by_cases hk : k = i
    · subst hk
      rw [w.set_sends_self, Option.some.injEq] at hcall
      subst hcall
      exact absurd hpc nofun
    · rw [w.set_sends_of_ne _ hk] at hcall
      exact ⟨call, prog, hcall, hpc, hpast⟩
  | locked i old hold hpc _ =>
    refine Or.inr ⟨rfl, hset hold fun prog hprog hpast => ?_⟩
    obtain rfl := SendPC.running.inj hprog
    exact absurd hpast (not_pastSeal_send _ _)
  | sent i old bytes next inner v hold hpc _ _ =>
    exact Or.inr ⟨rfl, hset hold fun _ _ _ => ⟨_, hpc, trivial⟩⟩
  | began => exact Or.inr ⟨rfl, hsame⟩
  | beside => exact Or.inr ⟨rfl, hsame⟩
  | requested i old hold _ => exact Or.inr ⟨rfl, hset hold nofun⟩
  | committed i old state hold _ => exact Or.inr ⟨rfl, hset hold nofun⟩
  | failed i old e hold _ => exact Or.inr ⟨rfl, hset hold nofun⟩
  | refused i old bytes next inner e hold _ _ _ => exact Or.inr ⟨rfl, hset hold nofun⟩
  | returned i old outcome hold _ => exact Or.inr ⟨rfl, hset hold nofun⟩
  | unwound i old hold _ => exact Or.inr ⟨rfl, hset hold nofun⟩
  | droppedStart i old hold _ => exact Or.inr ⟨rfl, hset hold nofun⟩
  | droppedLocking i old hold _ => exact Or.inr ⟨rfl, hset hold nofun⟩
  | droppedSending i old bytes next core hold _ _ => exact Or.inr ⟨rfl, hset hold nofun⟩

/-! ### The numbers of the calls that have encrypted -/

variable (cr) in
/-- **The invariant of the nonces.** -/
structure SealInv (connection : SecureConnection) (w : Sender ι κ) : Prop where
  sender : SenderInv cr connection.transcriptHash connection.sendState w
  /-- What a call encrypts, and that the counter is not behind it. -/
  sealed : ∀ e ∈ w.events, ∃ call, w.sends e.1 = some call ∧ call.pc.Acquired ∧
    e.2 = sealEvent cr connection.transcriptHash
      { connection.sendState with sequence := call.sequence } call.plaintext ∧
    call.sequence.toNat ≤ w.sendState.sequence.toNat
  /-- The last of them is where the counter is, or has put it beyond them all. -/
  last : ∀ e call, w.events.getLast? = some e → w.sends e.1 = some call →
    (call.pc.committed = false ∧ call.sequence = w.sendState.sequence) ∨
      (call.pc.committed = true ∧ ∀ e' ∈ w.events, w.number e'.1 < w.sendState.sequence.toNat)
  /-- It is the one behind the lock, if that one is past its encryption. -/
  own : ∀ id call prog, w.sends id = some call → call.pc = .running prog → PastSeal prog →
    ∃ event, w.events.getLast? = some (id, event)
  /-- One plaintext for each number. -/
  unique : ∀ e ∈ w.events, ∀ e' ∈ w.events, w.number e.1 = w.number e'.1 →
    (w.sends e.1).map SendCall.plaintext = (w.sends e'.1).map SendCall.plaintext

omit [DecidableEq ι] [DecidableEq κ] in
/-- Whoever encrypts has read the counter where it is, and takes its nonce from it. -/
theorem SenderInv.sealing (hinv : SenderInv cr transcriptHash state w) {event : Event}
    {next : Prog DirectionState} (hcall : w.sends id = some call)
    (hpc : call.pc = .running (.note event next)) :
    call.sequence = w.sendState.sequence ∧
      event = sealEvent cr transcriptHash { state with sequence := call.sequence }
        call.plaintext := by
  obtain ⟨-, hstage⟩ := hinv.fit id call hcall
  rw [hpc] at hstage
  obtain ⟨hsequence, hresidual⟩ := hstage
  generalize w.core.calls (.inl id) = inner at hresidual
  cases hresidual with
  | sealing _ =>
    refine ⟨hsequence, ?_⟩
    conv_lhs => rw [hinv.base]
    rw [hsequence]

omit [DecidableEq κ] in
/-- A step that encrypts. -/
theorem SealInv.noted (hinv : SealInv cr connection w) {event : Event}
    {next : Prog DirectionState} (hcall : w.sends id = some call)
    (hpc : call.pc = .running (.note event next))
    (hretries : ∀ last old, w.events.getLast? = some last → w.sends last.1 = some old →
      old.pc.committed = true ∨ old.plaintext = call.plaintext)
    (hsender : SenderInv cr connection.transcriptHash connection.sendState
      { w.set id { call with pc := .running next } with events := w.events ++ [(id, event)] }) :
    SealInv cr connection
      { w.set id { call with pc := .running next } with events := w.events ++ [(id, event)] } := by
  obtain ⟨hsequence, hevent⟩ := hinv.sender.sealing hcall hpc
  have hholder := hinv.sender.holder hcall (by rw [hpc]; rfl)
  set new : SendCall := { call with pc := .running next } with hnew
  set w' : Sender ι κ := { w.set id new with events := w.events ++ [(id, event)] } with hw'
  have hself : w'.sends id = some new := w.set_sends_self id new
  have hother : ∀ {k}, k ≠ id → w'.sends k = w.sends k := fun hk => w.set_sends_of_ne new hk
  have hnumber : ∀ k, w'.number k = w.number k := by
    intro k
    by_cases hk : k = id
    · rw [hk, Sender.number, Sender.number, hself, hcall]; rfl
    · rw [Sender.number, Sender.number, hother hk]
  have hplaintext : ∀ k, (w'.sends k).map SendCall.plaintext
      = (w.sends k).map SendCall.plaintext := by
    intro k
    by_cases hk : k = id
    · rw [hk, hself, hcall]; rfl
    · rw [hother hk]
  have hid : w'.number id = w.sendState.sequence.toNat := by
    rw [Sender.number, hself, ← hsequence]; rfl
  -- whoever has encrypted under the same number has the same plaintext
  have hsame : ∀ e ∈ w.events, w.number e.1 = w.sendState.sequence.toNat →
      (w.sends e.1).map SendCall.plaintext = some call.plaintext := by
    intro e he heq
    obtain ⟨last, hlast⟩ : ∃ last, w.events.getLast? = some last :=
      ⟨_, List.getLast?_eq_some_getLast (List.ne_nil_of_mem he)⟩
    obtain ⟨old, hold, -⟩ := hinv.sealed last (List.mem_of_getLast? hlast)
    rcases hinv.last last old hlast hold with ⟨hcommitted, hseq⟩ | ⟨-, hlt⟩
    · have hlastnumber : w.number last.1 = w.sendState.sequence.toNat := by
        rw [Sender.number, hold, Option.elim_some, hseq]
      rw [hinv.unique e he last (List.mem_of_getLast? hlast) (heq.trans hlastnumber.symm), hold,
        Option.map_some]
      rcases hretries last old hlast hold with h | h
      · exact absurd (hcommitted.symm.trans h) (by rintro ⟨⟩)
      · rw [h]
    · exact absurd heq (hlt e he).ne
  refine ⟨hsender, fun e he => ?_, fun e old he hold => ?_, fun k old prog hold hprog hpast => ?_,
    fun e he e' he' heq => ?_⟩
  · rcases List.mem_append.mp he with he | he
    · obtain ⟨old, hold, hacquired, hsealed, hle⟩ := hinv.sealed e he
      by_cases hk : e.1 = id
      · rw [hk] at hold ⊢
        obtain rfl := Option.some.inj (hcall.symm.trans hold)
        exact ⟨new, hself, trivial, hsealed, hle⟩
      · exact ⟨old, by rw [hother hk, hold], hacquired, hsealed, hle⟩
    · obtain rfl := List.mem_singleton.mp he
      exact ⟨new, hself, trivial, hevent, (congrArg UInt64.toNat hsequence).le⟩
  · rw [List.getLast?_concat, Option.some.injEq] at he
    subst he
    obtain rfl := Option.some.inj (hself.symm.trans hold)
    exact Or.inl ⟨rfl, hsequence⟩
  · by_cases hk : k = id
    · exact ⟨event, by rw [hk]; exact List.getLast?_concat⟩
    · rw [hother hk] at hold
      have hholder' := hinv.sender.holder hold (by rw [hprog]; rfl)
      exact absurd (Option.some.inj (hholder'.symm.trans hholder)) hk
  · rw [hnumber, hnumber] at heq
    rw [hplaintext, hplaintext]
    have hidw : w.number id = w.sendState.sequence.toNat := (hnumber id).symm.trans hid
    have hcallp : (w.sends id).map SendCall.plaintext = some call.plaintext := by rw [hcall]; rfl
    rcases List.mem_append.mp he with he | he <;> rcases List.mem_append.mp he' with he' | he'
    · exact hinv.unique e he e' he' heq
    · obtain rfl := List.mem_singleton.mp he'
      rw [hsame e he (heq.trans hidw), hcallp]
    · obtain rfl := List.mem_singleton.mp he
      rw [hsame e' he' (heq.symm.trans hidw), hcallp]
    · obtain rfl := List.mem_singleton.mp he
      obtain rfl := List.mem_singleton.mp he'
      rfl

/-- A step that does not encrypt. -/
theorem SealInv.silent (hinv : SealInv cr connection w)
    (h : w.Stepped cr connection.transcriptHash label w')
    (hsender : SenderInv cr connection.transcriptHash connection.sendState w')
    (hevents : w'.events = w.events)
    (hpast : ∀ k call prog, w'.sends k = some call → call.pc = .running prog → PastSeal prog →
      ∃ old prog', w.sends k = some old ∧ old.pc = .running prog' ∧ PastSeal prog') :
    SealInv cr connection w' := by
  have hkeeps : ∀ e ∈ w.events, ∃ old new, w.sends e.1 = some old ∧ w'.sends e.1 = some new ∧
      new.plaintext = old.plaintext ∧ new.sequence = old.sequence ∧ new.pc.Acquired := by
    intro e he
    obtain ⟨old, hold, hacquired, -⟩ := hinv.sealed e he
    obtain ⟨new, hnew, hplaintext, hsequence, hacquired'⟩ := h.acquired hold hacquired
    exact ⟨old, new, hold, hnew, hplaintext, hsequence, hacquired'⟩
  have hnumber : ∀ e ∈ w.events, w'.number e.1 = w.number e.1 := by
    intro e he
    obtain ⟨old, new, hold, hnew, -, hsequence, -⟩ := hkeeps e he
    rw [Sender.number, Sender.number, hold, hnew, Option.elim_some, Option.elim_some, hsequence]
  have hbound : ∀ e ∈ w.events, w.number e.1 ≤ w.sendState.sequence.toNat := by
    intro e he
    obtain ⟨old, hold, -, -, hle⟩ := hinv.sealed e he
    rwa [Sender.number, hold]
  have hcounter : w.sendState.sequence.toNat ≤ w'.sendState.sequence.toNat ∧
      ∀ e new, w.events.getLast? = some e → w'.sends e.1 = some new →
        (new.pc.committed = false ∧ new.sequence = w'.sendState.sequence) ∨
          (new.pc.committed = true ∧
            ∀ e' ∈ w.events, w.number e'.1 < w'.sendState.sequence.toNat) := by
    rcases h.commits with ⟨id, call, next, hcall, hpc, rfl⟩ | ⟨hstate, hsame⟩
    · -- the call that commits is the last that has encrypted
      obtain ⟨event, hlast⟩ := hinv.own id call _ hcall hpc trivial
      obtain ⟨-, hstage⟩ := hinv.sender.fit id call hcall
      rw [hpc] at hstage
      obtain ⟨-, hresidual⟩ := hstage
      generalize w.core.calls (.inl id) = inner at hresidual
      cases hresidual with
      | @handed next _ _ _ hnext _ _ _ =>
        have hsucc : next.toNat = w.sendState.sequence.toNat + 1 := checkedSucc_eq_some_iff.mp hnext
        refine ⟨?_, fun e new he hnew => ?_⟩
        · change w.sendState.sequence.toNat ≤ next.toNat
          omega
        · obtain rfl := Option.some.inj (hlast.symm.trans he)
          have hself := w.set_sends_self id { call with pc := .unwind (some (.ok ())) }
          obtain rfl := Option.some.inj (hself.symm.trans hnew)
          refine Or.inr ⟨rfl, fun e' he' => ?_⟩
          have hle := hbound e' he'
          change w.number e'.1 < next.toNat
          omega
    · rw [hstate]
      refine ⟨le_rfl, fun e new he hnew => ?_⟩
      obtain ⟨old, new', hold, hnew', -, hsequence, -⟩ := hkeeps e (List.mem_of_getLast? he)
      obtain rfl := Option.some.inj (hnew.symm.trans hnew')
      have hcommitted : new.pc.committed = old.pc.committed := by
        have hcommits := (hsame e.1).1
        rwa [hold, hnew, Option.any_some, Option.any_some] at hcommits
      rw [hcommitted, hsequence]
      exact hinv.last e old he hold
  refine ⟨hsender, fun e he => ?_, fun e new he hnew => ?_, fun k call prog hcall hpc hp => ?_,
    fun e he e' he' heq => ?_⟩
  · rw [hevents] at he
    obtain ⟨old, new, hold, hnew, hplaintext, hsequence, hacquired⟩ := hkeeps e he
    obtain ⟨old', hold', -, hsealed, hle⟩ := hinv.sealed e he
    obtain rfl := Option.some.inj (hold.symm.trans hold')
    refine ⟨new, hnew, hacquired, ?_, ?_⟩
    · rw [hsequence, hplaintext]
      exact hsealed
    · rw [hsequence]
      exact hle.trans hcounter.1
  · rw [hevents] at he ⊢
    refine (hcounter.2 e new he hnew).imp_right fun h => ⟨h.1, fun e' he' => ?_⟩
    exact (hnumber e' he').trans_lt (h.2 e' he')
  · obtain ⟨old, prog', hold, hprog', hpast'⟩ := hpast k call prog hcall hpc hp
    rw [hevents]
    exact hinv.own k old prog' hold hprog' hpast'
  · rw [hevents] at he he'
    rw [hnumber e he, hnumber e' he'] at heq
    have hsame := hinv.unique e he e' he' heq
    obtain ⟨old, new, hold, hnew, hplaintext, -⟩ := hkeeps e he
    obtain ⟨old', new', hold', hnew', hplaintext', -⟩ := hkeeps e' he'
    rw [hold, hold', Option.map_some, Option.map_some] at hsame
    rw [hnew, hnew', Option.map_some, Option.map_some, hplaintext, hplaintext', hsame]

/-- **Steps that retry keep the invariant.** -/
theorem SealInv.step (hinv : SealInv cr connection w) (hretries : Retries w label)
    (h : w.step cr connection.transcriptHash label = some w') : SealInv cr connection w' := by
  have hsender := hinv.sender.step h
  have hstepped := Sender.stepped h
  rcases hstepped.seals with ⟨id, call, event, next, rfl, hcall, hpc, rfl⟩ | ⟨hevents, hpast⟩
  · exact hinv.noted hcall hpc (hretries id call event next rfl hcall hpc) hsender
  · exact hinv.silent hstepped hsender hevents hpast

theorem sealInv_of_runs
    (h : Runs (Sender.step cr connection.transcriptHash) Retries (Sender.init connection) w) :
    SealInv cr connection w := by
  refine h.invariant (SealInv cr connection) ?_ fun _ _ _ hinv hretries hstep =>
    hinv.step hretries hstep
  exact {
    sender := senderInv_init connection
    sealed := fun _ h => absurd h List.not_mem_nil
    last := fun _ _ h => nomatch h
    own := fun _ _ _ h => nomatch h
    unique := fun _ h => absurd h List.not_mem_nil }

omit [DecidableEq ι] [DecidableEq κ] in
/-- Equal nonces come from equal numbers, and these from one plaintext. -/
theorem SealInv.noncesUnique (hinv : SealInv cr connection w) : NoncesUnique w.events := by
  intro id key nonce aad plaintext ciphertext he id' aad' plaintext' ciphertext' he'
  obtain ⟨call, hcall, -, hsealed, -⟩ := hinv.sealed _ he
  obtain ⟨call', hcall', -, hsealed', -⟩ := hinv.sealed _ he'
  obtain ⟨-, hnonce, -, rfl, -⟩ := Event.encrypt.inj hsealed
  obtain ⟨-, hnonce', -, rfl, -⟩ := Event.encrypt.inj hsealed'
  have hsequence : call.sequence = call'.sequence :=
    toBeBytes_injective (makeNonce_inj (hnonce.symm.trans hnonce')).2
  have hsame := hinv.unique _ he _ he' (by
    rw [Sender.number, Sender.number, hcall, hcall', Option.elim_some, Option.elim_some, hsequence])
  rw [hcall, hcall'] at hsame
  exact Option.some.inj hsame

/-- **Nonces under the condition.** In every run of any number of concurrent calls of `send`, with
any outcomes and any of them dropped, whose steps all meet the condition, no two calls of `encrypt`
use one nonce for different plaintexts; and a step that does not meet it reuses a nonce at once. -/
theorem nonces_unique_of_retries
    (h : Runs (Sender.step cr connection.transcriptHash) Retries (Sender.init connection) w) :
    NoncesUnique w.events ∧
      ∀ label w', w.step cr connection.transcriptHash label = some w' → ¬Retries w label →
        ¬NoncesUnique w'.events := by
  have hinv := sealInv_of_runs h
  refine ⟨hinv.noncesUnique, fun label w' hstep hnot hunique => ?_⟩
  unfold Retries at hnot
  push Not at hnot
  obtain ⟨id, call, event, next, rfl, hcall, hpc, last, old, hlast, hold, hcommitted, hne⟩ := hnot
  obtain ⟨hsequence, rfl⟩ := hinv.sender.sealing hcall hpc
  obtain ⟨old', hold', -, hsealed, -⟩ := hinv.sealed last (List.mem_of_getLast? hlast)
  obtain rfl := Option.some.inj (hold.symm.trans hold')
  have hcounter : old.sequence = call.sequence := by
    rcases hinv.last last old hlast hold with ⟨-, hseq⟩ | ⟨hc, -⟩
    · rw [hseq, hsequence]
    · exact absurd hc hcommitted
  simp only [Sender.step, hcall, Option.bind_some, Sender.poll, hpc, Option.some.injEq] at hstep
  subst hstep
  have hmem : (last.1, sealEvent cr connection.transcriptHash
      { connection.sendState with sequence := call.sequence } old.plaintext) ∈ w.events := by
    rw [← hcounter, ← hsealed]
    exact List.mem_of_getLast? hlast
  exact hne (hunique last.1 _ _ _ _ _ (List.mem_append_left _ hmem) id _ _ _
    (List.mem_append_right _ List.mem_cons_self))

/-! ### A reused nonce -/

/-- A call of `send` on a paused connection: it encrypts, and is refused before the gate. -/
def refusedSend (plaintext : List UInt8) : List (SendLabel ℕ ℕ) :=
  let other (k : ℕ) (op : Op) : List (SendLabel ℕ ℕ) :=
    .core (.call (.inr k) op) :: List.replicate 3 (.core (.poll (.inr k) .go))
  other 0 .pause ++ .call 0 plaintext :: List.replicate 4 (.poll 0)
    ++ List.replicate 3 (.core (.poll (.inl 0) .go)) ++ List.replicate 2 (.poll 0)
    ++ other 1 .resume

/-- It is followed by a call that encrypts. -/
def secondSend (check : Sender ℕ ℕ → SendLabel ℕ ℕ → Bool) (plaintext : List UInt8) :
    Option (Sender ℕ ℕ) :=
  runLabels (Sender.step .transparent (exampleClient 1 1).transcriptHash) check
    (Sender.init (exampleClient 1 1))
    (refusedSend [7] ++ .call 1 plaintext :: List.replicate 3 (.poll 1))

/-- The condition, evaluated. -/
def Sender.retries (w : Sender ι κ) : SendLabel ι κ → Bool
  | .poll id =>
    match w.sends id, w.events.getLast? with
    | some call, some last =>
      match call.pc with
      | .running (.note _ _) => (w.sends last.1).all fun old =>
        old.pc.committed || old.plaintext == call.plaintext
      | _ => true
    | _, _ => true
  | _ => true

omit [DecidableEq ι] [DecidableEq κ] in
theorem retries_of_eq_true (w : Sender ι κ) (label : SendLabel ι κ) (h : w.retries label = true) :
    Retries w label := by
  rintro id call event next rfl hcall hpc last old hlast hold
  simpa [Sender.retries, hcall, hlast, hpc, hold] using h

/-- The same plaintext again. -/
def retried : Sender ℕ ℕ := (secondSend Sender.retries [7]).getD (Sender.init (exampleClient 1 1))

theorem runs_retried : Runs (Sender.step .transparent (exampleClient 1 1).transcriptHash) Retries
    (Sender.init (exampleClient 1 1)) retried :=
  runs_of_runLabels retries_of_eq_true (show secondSend Sender.retries [7] = some retried from rfl)

/-- Two calls encrypt under one nonce, and no nonce has two plaintexts. -/
theorem nonces_unique_of_retries_retried :
    retried.events.length = 2 ∧ NoncesUnique retried.events :=
  ⟨rfl, (nonces_unique_of_retries runs_retried).1⟩

/-- Another plaintext. -/
def reused : Sender ℕ ℕ :=
  (secondSend (fun _ _ => true) [8]).getD (Sender.init (exampleClient 1 1))

/-- **Nonces are not unique.** A call refused while the connection is paused leaves the counter, and
the next call encrypts under the nonce it has used. -/
theorem nonce_reuse :
    ¬ ∀ (cr : Crypto) (connection : SecureConnection) (w : Sender ℕ ℕ),
      Runs (Sender.step cr connection.transcriptHash) (fun _ _ => True) (Sender.init connection) w →
        NoncesUnique w.events := by
  intro h
  have hruns : Runs (Sender.step .transparent (exampleClient 1 1).transcriptHash)
      (fun _ _ => True) (Sender.init (exampleClient 1 1)) reused :=
    runs_of_runLabels (fun _ _ _ => trivial)
      (show secondSend (fun _ _ => true) [8] = some reused from rfl)
  have hevents : reused.events = [7, 8].mapIdx fun i b =>
      (i, sealEvent .transparent (exampleClient 1 1).transcriptHash (exampleClient 1 1).sendState
        [b]) := rfl
  have hsame := h _ _ _ hruns
  rw [hevents] at hsame
  exact absurd (hsame 0 _ _ _ _ _ List.mem_cons_self 1 _ _ _
    (List.mem_cons_of_mem _ List.mem_cons_self)) (by decide)

end Security

end Taunicorn
