import Taunicorn.Lib.Duplex

/-!
# Conversations that break off

Two programs joined by two streams again, where a program may fail in the middle of the
conversation and a stream may break.

A program *stands* where it returns, has failed or waits for bytes. `Plays` says that a program
plays its side of a script and then stands somewhere; `Follows` is the case where it returns. Two
programs that agree on a script up to the place where one of them fails are an instance of two
programs that follow one script, each with what is left of it as its result: `Duplex.join` runs
what is left, and nothing has to be proved again.

A stream breaks in two ways: a read finds its end, or an operation fails. Who is to blame makes
two relations. In a *lossy* conversation anything may break at any time; in a *closing* one, only
behind a program that has failed.

## Main results

* `Duplex.Plays.step`, `Duplex.Plays.exists_step` — the invariant, and progress
* `Duplex.returned_of_lossy` — whoever returns, returns what it was to return
* `Duplex.returns_of_closing`, `Duplex.fails_of_closing` — both return, or both fail
-/

/-- Where every run ends, and none before it is where it is to be, one gets there. -/
theorem exists_end_of_acc {σ : Type} {step : σ → σ → Prop} {P : σ → Prop} {s : σ}
    (hacc : Acc (fun s' s => step s s') s)
    (h : ∀ s', Relation.ReflTransGen step s s' → P s' ∨ ∃ s'', step s' s'') :
    ∃ s', Relation.ReflTransGen step s s' ∧ P s' := by
  induction hacc with
  | intro s _ ih =>
    rcases h s .refl with hend | ⟨s₁, hstep⟩
    · exact ⟨s, .refl, hend⟩
    · obtain ⟨s', hreach, hend⟩ := ih s₁ hstep fun s' hreach => h s' (.head hstep hreach)
      exact ⟨s', .head hstep hreach, hend⟩

namespace StreamProg

variable {ε ν α β : Type} {side : Side} {a : α} {b : β} {script : List (Side × UInt8)}

/-! ### Up to a place -/

/-- A program that returns what is left of it, run to its end. -/
def join (p₀ : StreamProg ε ν (StreamProg ε ν α)) : StreamProg ε ν α := p₀ >>= id

/-- `Plays side p script q`: `p` plays its side of the script, and is then at `q`. -/
def Plays (side : Side) (p : StreamProg ε ν α) (script : List (Side × UInt8))
    (q : StreamProg ε ν α) : Prop :=
  ∃ p₀, p = join p₀ ∧ Follows side p₀ script q

/-- The program waits for bytes, has failed or has returned. -/
def Standing : StreamProg ε ν α → Prop
  | .send _ _ => False
  | .note _ _ => False
  | _ => True

/-- Every read asks for something, and every end of the stream is a failure of the program. -/
def EndFails : StreamProg ε ν α → Prop
  | .pure _ => True
  | .fail _ => True
  | .receive max next => 0 < max ∧ (∃ e, next .endOfStream = .fail e) ∧ ∀ r, (next r).EndFails
  | .send _ next => next.EndFails
  | .note _ next => next.EndFails

/-- The program never asks for no bytes at all. -/
def Asks : StreamProg ε ν α → Prop
  | .pure _ => True
  | .fail _ => True
  | .receive max next => 0 < max ∧ ∀ r, (next r).Asks
  | .send _ next => next.Asks
  | .note _ next => next.Asks

variable {p p' q : StreamProg ε ν α} {p₀ : StreamProg ε ν (StreamProg ε ν α)}
  {inbox inbox' outbox outbox' : List UInt8}

theorem EndFails.asks (hp : p.EndFails) : p.Asks := by
  induction p with
  | pure a => trivial
  | fail e => trivial
  | receive max next ih => exact ⟨hp.1, fun r => ih r (hp.2.2 r)⟩
  | send bytes next ih => exact ih hp
  | note event next ih => exact ih hp

theorem EndFails.bind {f : α → StreamProg ε ν β} (hp : p.EndFails) (hf : ∀ a, (f a).EndFails) :
    (p >>= f).EndFails := by
  induction p with
  | pure a => exact hf a
  | fail e => trivial
  | receive max next ih =>
    obtain ⟨hmax, ⟨e, he⟩, hnext⟩ := hp
    refine ⟨hmax, ⟨e, ?_⟩, fun r => ih r (hnext r)⟩
    change next .endOfStream >>= f = _
    rw [he]
    rfl
  | send bytes next ih => exact ih hp
  | note event next ih => exact ih hp

theorem EndFails.acts (hp : p.EndFails) (h : Acts p inbox outbox p' inbox' outbox') :
    p'.EndFails := by
  cases h with
  | received _ _ => exact hp.2.2 _
  | sent => exact hp
  | sentPart _ => exact hp
  | noted => exact hp

/-- Where a program is at once. -/
theorem plays_here (q : StreamProg ε ν α) : Plays side q [] q := ⟨.pure q, rfl, .pure q⟩

/-- A program that does something with its result follows the same script. -/
theorem Follows.map (h : Follows side p script a) (f : α → β) :
    Follows side (p >>= fun a => .pure (f a)) script (f a) := by
  induction h with
  | pure a => exact .pure _
  | note _ ih => exact .note ih
  | send _ ih => exact .send ih
  | receive hmax _ ih =>
    exact .receive hmax fun chunk rest hne hle hcut => ih chunk rest hne hle hcut

/-- Where a program returns is a place. -/
theorem Follows.plays (h : Follows side p script a) : Plays side p script (.pure a) := by
  refine ⟨p >>= fun a => .pure (.pure a), ?_, h.map _⟩
  rw [join, bind_assoc]
  exact (bind_pure p).symm

/-- A place of a program is a place of any that goes on with its result. -/
theorem Plays.bind (h : Plays side p script q) (k : α → StreamProg ε ν β) :
    Plays side (p >>= k) script (q >>= k) := by
  obtain ⟨p₀, rfl, hp₀⟩ := h
  refine ⟨p₀ >>= fun q => .pure (q >>= k), ?_, hp₀.map _⟩
  rw [join, join, bind_assoc, bind_assoc]
  rfl

theorem Plays.note {event : ν} (h : Plays side p script q) :
    Plays side (.note event p) script q := by
  obtain ⟨p₀, rfl, hp₀⟩ := h
  exact ⟨.note event p₀, rfl, .note hp₀⟩

/-- What is left of a program has returned only where the program has returned it. -/
theorem eq_pure_of_join {x : α} (h : p₀.join = .pure x) : p₀ = .pure (.pure x) := by
  cases p₀ with
  | pure q =>
    obtain rfl : q = .pure x := h
    rfl
  | _ => exact absurd h (by simp [join])

/-- What is left of a program acts where the program does. -/
theorem Acts.join {p₀' : StreamProg ε ν (StreamProg ε ν α)}
    (h : Acts p₀ inbox outbox p₀' inbox' outbox') :
    Acts p₀.join inbox outbox p₀'.join inbox' outbox' := by
  cases h with
  | received hne hle => exact .received hne hle
  | sent => exact .sent
  | sentPart hne => exact .sentPart hne
  | noted => exact .noted

/-- Before it is where it is to be, a program acts as the one that returns there. -/
theorem exists_acts_of_join (h : Acts p₀.join inbox outbox p' inbox' outbox') :
    p₀ = .pure p₀.join ∨ ∃ p₀', p' = p₀'.join ∧ Acts p₀ inbox outbox p₀' inbox' outbox' := by
  generalize hp : p₀.join = p at h
  cases p₀ with
  | pure q =>
    obtain rfl : q = p := hp
    exact Or.inl rfl
  | fail e =>
    subst hp
    cases h
  | receive max next =>
    subst hp
    cases h with
    | received hne hle => exact Or.inr ⟨_, rfl, .received hne hle⟩
  | send bytes next =>
    subst hp
    cases h with
    | sent => exact Or.inr ⟨_, rfl, .sent⟩
    | sentPart hne => exact Or.inr ⟨.send _ next, rfl, .sentPart hne⟩
  | note event next =>
    subst hp
    cases h with
    | noted => exact Or.inr ⟨_, rfl, .noted⟩

/-! ### Both sides -/

/-- What is left of both programs, run to their ends. -/
def Duplex.join (s₀ : Duplex ε ν (StreamProg ε ν α) (StreamProg ε ν β)) : Duplex ε ν α β :=
  ⟨s₀.left.join, s₀.right.join, s₀.toRight, s₀.toLeft⟩

/-- Both programs play one script, and are then at `p` and `q`. -/
def Duplex.Plays (s : Duplex ε ν α β) (p : StreamProg ε ν α) (q : StreamProg ε ν β) : Prop :=
  ∃ s₀, s = Duplex.join s₀ ∧ s₀.Follows p q

variable {r : StreamProg ε ν β} {s s' : Duplex ε ν α β}

theorem Duplex.plays_start {p : StreamProg ε ν α} {q : StreamProg ε ν β} {p' : StreamProg ε ν α}
    {q' : StreamProg ε ν β} (hp : StreamProg.Plays .left p script p')
    (hq : StreamProg.Plays .right q script q') : (Duplex.start p q).Plays p' q' := by
  obtain ⟨p₀, rfl, hp₀⟩ := hp
  obtain ⟨q₀, rfl, hq₀⟩ := hq
  exact ⟨.start p₀ q₀, rfl, script, hp₀, hq₀, Or.inl rfl⟩

/-- A program that has returned where its script goes on has nothing to read. -/
theorem Follows.inbox_eq_nil {γ : Type} {c d : γ}
    (h : Follows side (.pure c : StreamProg ε ν γ) (inbox.map (Prod.mk side.other) ++ script) d) :
    inbox = [] := by
  generalize hplace : inbox.map (Prod.mk side.other) ++ script = place at h
  cases h
  exact List.map_eq_nil_iff.mp (List.append_eq_nil_iff.mp hplace).1

/-- A program that stands does not act with nothing to read. -/
theorem Standing.not_acts (hq : q.Standing) : ¬Acts q [] outbox p' inbox' outbox' := by
  intro h
  generalize hinbox : ([] : List UInt8) = inbox at h
  cases h with
  | received hne _ => exact hne (List.append_eq_nil_iff.mp hinbox.symm).1
  | sent => exact hq
  | sentPart _ => exact hq
  | noted => exact hq

/-- **The invariant.** -/
theorem Duplex.Plays.step (hq : q.Standing) (hr : r.Standing) (h : s.Plays q r)
    (hstep : Duplex.Step s s') : s'.Plays q r := by
  obtain ⟨s₀, rfl, hs₀⟩ := h
  obtain ⟨script, hleft, hright, -⟩ := id hs₀
  cases hstep with
  | @left p toRight toLeft hacts =>
    rcases exists_acts_of_join hacts with hpure | ⟨p₀, rfl, hacts₀⟩
    · rw [hpure] at hleft
      obtain rfl := hleft.returned.2 _ rfl
      rw [show s₀.join.toLeft = [] from hleft.inbox_eq_nil] at hacts
      exact absurd hacts (Standing.not_acts hq)
    · exact ⟨⟨p₀, s₀.right, toRight, toLeft⟩, rfl, hs₀.step (.left hacts₀)⟩
  | @right q' toRight toLeft hacts =>
    rcases exists_acts_of_join hacts with hpure | ⟨p₀, rfl, hacts₀⟩
    · rw [hpure] at hright
      obtain rfl := hright.returned.2 _ rfl
      rw [show s₀.join.toRight = [] from hright.inbox_eq_nil] at hacts
      exact absurd hacts (Standing.not_acts hr)
    · exact ⟨⟨s₀.left, p₀, toRight, toLeft⟩, rfl, hs₀.step (.right hacts₀)⟩

/-- A program that does not return at its place has not returned before. -/
theorem Duplex.Plays.ne_pure (h : s.Plays q r) :
    ((∀ x, q ≠ .pure x) → ∀ x, s.left ≠ .pure x) ∧
      ((∀ y, r ≠ .pure y) → ∀ y, s.right ≠ .pure y) := by
  obtain ⟨s₀, rfl, script, hleft, hright, -⟩ := h
  refine ⟨fun hq x hx => hq x ?_, fun hr y hy => hr y ?_⟩
  · exact (hleft.returned.2 _ (eq_pure_of_join hx)).symm
  · exact (hright.returned.2 _ (eq_pure_of_join hy)).symm

/-- **Progress.** Before both programs are where they are to be, one of them can act; then nothing
is in flight. -/
theorem Duplex.Plays.exists_step (h : s.Plays q r) :
    (s.left = q ∧ s.right = r ∧ s.toLeft = [] ∧ s.toRight = []) ∨ ∃ s', Duplex.Step s s' := by
  obtain ⟨s₀, rfl, hs₀⟩ := h
  rcases hs₀.exists_step with ⟨hl, hr⟩ | ⟨s₁, hstep⟩
  · obtain ⟨script, hleft, hright, -⟩ := id hs₀
    rw [hl] at hleft
    rw [hr] at hright
    refine Or.inl ⟨?_, ?_, hleft.inbox_eq_nil, hright.inbox_eq_nil⟩
    · change s₀.left.join = q
      rw [hl]
      rfl
    · change s₀.right.join = r
      rw [hr]
      rfl
  · cases hstep with
    | left hacts => exact Or.inr ⟨_, .left hacts.join⟩
    | right hacts => exact Or.inr ⟨_, .right hacts.join⟩

/-! ### Streams that break -/

/-- A stream breaks under one of the programs: the read finds its end behind all bytes, or the
operation fails. -/
inductive Duplex.Breaks (s : Duplex ε ν α β) : Duplex ε ν α β → Prop
  | leftEnd {max : ℕ} {next : Received → StreamProg ε ν α} : s.left = .receive max next →
      s.toLeft = [] → Breaks s { s with left := next .endOfStream }
  | leftFault (e : ε) : s.left.Suspended → Breaks s { s with left := .fail e }
  | rightEnd {max : ℕ} {next : Received → StreamProg ε ν β} : s.right = .receive max next →
      s.toRight = [] → Breaks s { s with right := next .endOfStream }
  | rightFault (e : ε) : s.right.Suspended → Breaks s { s with right := .fail e }

/-- The program has failed. -/
def Failed (p : StreamProg ε ν α) : Prop := ∃ e, p = .fail e

/-- An operation of one of the programs, or a break. -/
def Duplex.Lossy (s s' : Duplex ε ν α β) : Prop := Duplex.Step s s' ∨ Duplex.Breaks s s'

/-- An operation of one of the programs, or a break behind a program that has failed. -/
def Duplex.Closing (s s' : Duplex ε ν α β) : Prop :=
  Duplex.Step s s' ∨ (s.left.Failed ∨ s.right.Failed) ∧ Duplex.Breaks s s'

/-- What a break is for the program under which the stream breaks. -/
inductive Cuts (p : StreamProg ε ν α) (inbox : List UInt8) : StreamProg ε ν α → Prop
  | ended {max : ℕ} {next : Received → StreamProg ε ν α} : p = .receive max next → inbox = [] →
      Cuts p inbox (next .endOfStream)
  | fault (e : ε) : p.Suspended → Cuts p inbox (.fail e)

/-- Two programs and what each of them has in flight, side by side. -/
def Duplex.ofSides (progs : Side → StreamProg ε ν α) (flight : Side → List UInt8) :
    Duplex ε ν α α :=
  ⟨progs .left, progs .right, flight .left, flight .right⟩

variable {progs progs' : Side → StreamProg ε ν α} {flight flight' : Side → List UInt8}

/-- An operation of one side is a step of the conversation, -/
theorem Duplex.step_of_acts
    (h : Acts (progs side) (flight side.other) (flight side) (progs' side) (flight' side.other)
      (flight' side)) (hother : progs' side.other = progs side.other) :
    Duplex.Step (.ofSides progs flight) (.ofSides progs' flight') := by
  unfold Duplex.ofSides
  cases side with
  | left =>
    rw [show progs' .right = progs .right from hother]
    exact .left h
  | right =>
    rw [show progs' .left = progs .left from hother]
    exact .right h

/-- and a break on one side is a break of it. -/
theorem Duplex.breaks_of_cuts (h : Cuts (progs side) (flight side.other) (progs' side))
    (hother : progs' side.other = progs side.other) :
    Duplex.Breaks (.ofSides progs flight) (.ofSides progs' flight) := by
  generalize hp : progs' side = p at h
  unfold Duplex.ofSides
  cases side with
  | left =>
    rw [show progs' .right = progs .right from hother, hp]
    cases h with
    | ended hreceive hinbox => exact .leftEnd hreceive hinbox
    | fault e hwaits => exact .leftFault e hwaits
  | right =>
    rw [show progs' .left = progs .left from hother, hp]
    cases h with
    | ended hreceive hinbox => exact .rightEnd hreceive hinbox
    | fault e hwaits => exact .rightFault e hwaits

/-- A program that has failed does not act, -/
theorem Failed.not_acts (h : p.Failed) : ¬Acts p inbox outbox p' inbox' outbox' := by
  obtain ⟨e, rfl⟩ := h
  intro h
  cases h

/-- is not under way, -/
theorem Failed.not_suspended (h : p.Failed) : ¬p.Suspended := by
  obtain ⟨e, rfl⟩ := h
  exact not_false

/-- and has not returned. -/
theorem Failed.ne_pure (h : p.Failed) : p ≠ .pure a := by
  obtain ⟨e, rfl⟩ := h
  exact fun h => absurd h (by simp)

/-- A break leaves one program as it is, with what is in flight, and is a failure of the other. -/
theorem Duplex.Breaks.failed (h : Duplex.Breaks s s') (hleft : s.left.EndFails)
    (hright : s.right.EndFails) :
    s'.toLeft = s.toLeft ∧ s'.toRight = s.toRight ∧
      ((s.left.Suspended ∧ s'.left.Failed ∧ s'.right = s.right) ∨
        (s.right.Suspended ∧ s'.right.Failed ∧ s'.left = s.left)) := by
  cases h with
  | leftEnd hp _ =>
    rw [hp] at hleft ⊢
    exact ⟨rfl, rfl, Or.inl ⟨trivial, hleft.2.1, rfl⟩⟩
  | leftFault e hp => exact ⟨rfl, rfl, Or.inl ⟨hp, ⟨e, rfl⟩, rfl⟩⟩
  | rightEnd hq _ =>
    rw [hq] at hright ⊢
    exact ⟨rfl, rfl, Or.inr ⟨trivial, hright.2.1, rfl⟩⟩
  | rightFault e hq => exact ⟨rfl, rfl, Or.inr ⟨hq, ⟨e, rfl⟩, rfl⟩⟩

/-- Both programs fail at every end of their streams. -/
def Duplex.EndFails (s : Duplex ε ν α β) : Prop := s.left.EndFails ∧ s.right.EndFails

theorem Failed.endFails (h : p.Failed) : p.EndFails := by
  obtain ⟨e, rfl⟩ := h
  trivial

theorem Duplex.EndFails.lossy (h : s.EndFails) (hstep : Duplex.Lossy s s') : s'.EndFails := by
  rcases hstep with hstep | hbreaks
  · cases hstep with
    | left hacts => exact ⟨h.1.acts hacts, h.2⟩
    | right hacts => exact ⟨h.1, h.2.acts hacts⟩
  · obtain ⟨-, -, ⟨-, hfailed, hsame⟩ | ⟨-, hfailed, hsame⟩⟩ := hbreaks.failed h.1 h.2
    · exact ⟨hfailed.endFails, hsame ▸ h.2⟩
    · exact ⟨hsame ▸ h.1, hfailed.endFails⟩

theorem Duplex.EndFails.closing (h : s.EndFails) (hstep : Duplex.Closing s s') : s'.EndFails :=
  h.lossy (hstep.imp_right And.right)

/-! ### Lossy conversations -/

/-- A program is on its way to a place, with what waits for it, or has failed. -/
def OnScript (side : Side) (p : StreamProg ε ν α) (inbox : List UInt8) (q : StreamProg ε ν α) :
    Prop :=
  p.Failed ∨ ∃ script, Plays side p (inbox.map (Prod.mk side.other) ++ script) q

theorem OnScript.acts (h : OnScript side p inbox q) (hq : q.Standing)
    (hacts : Acts p inbox outbox p' inbox' outbox') : OnScript side p' inbox' q := by
  rcases h with hfailed | ⟨script, p₀, rfl, hfollows⟩
  · exact absurd hacts hfailed.not_acts
  · rcases exists_acts_of_join hacts with hpure | ⟨p₀', rfl, hacts₀⟩
    · rw [hpure] at hfollows
      obtain rfl := hfollows.returned.2 _ rfl
      rw [hfollows.inbox_eq_nil] at hacts
      exact absurd hacts (Standing.not_acts hq)
    · obtain ⟨script', -, hnext, -⟩ := hfollows.acts hacts₀
      exact Or.inr ⟨script', p₀', rfl, hnext⟩

theorem OnScript.returned (h : OnScript side p inbox q) {x : α} (hp : p = .pure x) :
    q = .pure x := by
  rcases h with hfailed | ⟨script, p₀, hjoin, hfollows⟩
  · exact absurd hp hfailed.ne_pure
  · exact (hfollows.returned.2 _ (eq_pure_of_join (hjoin.symm.trans hp))).symm

/-- Both programs are on one script; or one has failed and the other is still on its own. -/
def Duplex.OnScript (s : Duplex ε ν α β) (q : StreamProg ε ν α) (r : StreamProg ε ν β) : Prop :=
  s.Plays q r ∨ (s.left.Failed ∧ StreamProg.OnScript .right s.right s.toRight r) ∨
    (s.right.Failed ∧ StreamProg.OnScript .left s.left s.toLeft q)

/-- One by one. -/
theorem Duplex.OnScript.both (h : s.OnScript q r) :
    StreamProg.OnScript .left s.left s.toLeft q ∧
      StreamProg.OnScript .right s.right s.toRight r := by
  rcases h with ⟨s₀, rfl, script, hleft, hright, -⟩ | ⟨hfailed, hright⟩ | ⟨hfailed, hleft⟩
  · exact ⟨Or.inr ⟨script, s₀.left, rfl, hleft⟩, Or.inr ⟨script, s₀.right, rfl, hright⟩⟩
  · exact ⟨Or.inl hfailed, hright⟩
  · exact ⟨hleft, Or.inl hfailed⟩

theorem Duplex.OnScript.lossy (h : s.OnScript q r) (hq : q.Standing) (hr : r.Standing)
    (hends : s.EndFails) (hstep : Duplex.Lossy s s') : s'.OnScript q r := by
  rcases hstep with hstep | hbreaks
  · rcases h with hplays | ⟨hfailed, hright⟩ | ⟨hfailed, hleft⟩
    · exact Or.inl (hplays.step hq hr hstep)
    · cases hstep with
      | left hacts => exact absurd hacts hfailed.not_acts
      | right hacts => exact Or.inr (Or.inl ⟨hfailed, hright.acts hr hacts⟩)
    · cases hstep with
      | left hacts => exact Or.inr (Or.inr ⟨hfailed, hleft.acts hq hacts⟩)
      | right hacts => exact absurd hacts hfailed.not_acts
  · obtain ⟨hleft, hright⟩ := h.both
    obtain ⟨hl, hr, ⟨-, hfailed, hsame⟩ | ⟨-, hfailed, hsame⟩⟩ := hbreaks.failed hends.1 hends.2
    · exact Or.inr (Or.inl ⟨hfailed, by rw [hsame, hr]; exact hright⟩)
    · exact Or.inr (Or.inr ⟨hfailed, by rw [hsame, hl]; exact hleft⟩)

/-- **Whoever returns, returns what it was to return**, whatever breaks and whenever. -/
theorem Duplex.returned_of_lossy {p₂ : StreamProg ε ν β} (hp : StreamProg.Plays .left p script q)
    (hp₂ : StreamProg.Plays .right p₂ script r) (hq : q.Standing) (hr : r.Standing)
    (hends : (Duplex.start p p₂).EndFails)
    (h : Relation.ReflTransGen Duplex.Lossy (.start p p₂) s) :
    (∀ x, s.left = .pure x → q = .pure x) ∧ ∀ y, s.right = .pure y → r = .pure y := by
  have hinv : s.EndFails ∧ s.OnScript q r := by
    induction h with
    | refl => exact ⟨hends, Or.inl (Duplex.plays_start hp hp₂)⟩
    | tail _ hstep ih => exact ⟨ih.1.lossy hstep, ih.2.lossy hq hr ih.1 hstep⟩
  obtain ⟨hleft, hright⟩ := hinv.2.both
  exact ⟨fun x hx => hleft.returned hx, fun y hy => hright.returned hy⟩

/-! ### Closing conversations -/

/-- Where neither program fails, nothing breaks. -/
theorem Duplex.Follows.closing (h : s.Follows a b) (hstep : Duplex.Closing s s') :
    Duplex.Step s s' ∧ s'.Follows a b := by
  rcases hstep with hstep | ⟨⟨e, he⟩ | ⟨e, he⟩, -⟩
  · exact ⟨hstep, h.step hstep⟩
  · obtain ⟨script, hleft, -⟩ := h
    exact absurd he (hleft.returned.1 e)
  · obtain ⟨script, -, hright, -⟩ := h
    exact absurd he (hright.returned.1 e)

/-- **Programs that follow one script both return**: neither fails, none waits in vain, and every
run ends. -/
theorem Duplex.returns_of_closing {q : StreamProg ε ν β}
    (hp : StreamProg.Follows .left p script a) (hq : StreamProg.Follows .right q script b)
    (h : Relation.ReflTransGen Duplex.Closing (.start p q) s) :
    ¬s.left.Failed ∧ ¬s.right.Failed ∧ Acc (fun s' s => Duplex.Closing s s') s ∧
      ((s.left = .pure a ∧ s.right = .pure b) ∨ ∃ s', Duplex.Closing s s') := by
  have hfollows : s.Follows a b := by
    induction h with
    | refl => exact ⟨script, hp, hq, Or.inl rfl⟩
    | tail _ hstep ih => exact (ih.closing hstep).2
  refine ⟨?_, ?_, ?_, hfollows.exists_step.imp_right fun ⟨s', hstep⟩ => ⟨s', Or.inl hstep⟩⟩
  · obtain ⟨script, hleft, -⟩ := hfollows
    exact fun ⟨e, he⟩ => hleft.returned.1 e he
  · obtain ⟨script, -, hright, -⟩ := hfollows
    exact fun ⟨e, he⟩ => hright.returned.1 e he
  · clear h
    induction s using Duplex.step_wellFounded.induction with
    | _ s ih =>
      refine ⟨s, fun s' hstep => ?_⟩
      obtain ⟨hstep, hfollows'⟩ := hfollows.closing hstep
      exact ih s' hstep hfollows'

/-- Both programs have failed. -/
def Duplex.BothFailed (s : Duplex ε ν α β) : Prop := s.left.Failed ∧ s.right.Failed

theorem Duplex.BothFailed.not_closing (h : s.BothFailed) : ¬Duplex.Closing s s' := by
  rintro (hstep | ⟨-, hbreaks⟩)
  · cases hstep with
    | left hacts => exact h.1.not_acts hacts
    | right hacts => exact h.2.not_acts hacts
  · cases hbreaks with
    | leftEnd hp _ => exact h.1.not_suspended (by rw [hp]; trivial)
    | leftFault e hp => exact h.1.not_suspended hp
    | rightEnd hq _ => exact h.2.not_suspended (by rw [hq]; trivial)
    | rightFault e hq => exact h.2.not_suspended hq

/-- A break behind a program that has failed is the failure of the other. -/
theorem Duplex.Breaks.bothFailed (h : Duplex.Breaks s s') (hends : s.EndFails)
    (hfailed : s.left.Failed ∨ s.right.Failed) : s'.BothFailed := by
  obtain ⟨-, -, ⟨hwaits, hleft, hsame⟩ | ⟨hwaits, hright, hsame⟩⟩ := h.failed hends.1 hends.2
  · exact ⟨hleft, hsame ▸ hfailed.resolve_left fun h => h.not_suspended hwaits⟩
  · exact ⟨hsame ▸ hfailed.resolve_right fun h => h.not_suspended hwaits, hright⟩

/-- The program waits for bytes. -/
def Waits (p : StreamProg ε ν α) : Prop := ∃ max next, p = .receive max next

theorem Failed.bind (h : q.Failed) (k : α → StreamProg ε ν β) : (q >>= k).Failed := by
  obtain ⟨e, rfl⟩ := h
  exact ⟨e, rfl⟩

theorem Waits.bind (h : q.Waits) (k : α → StreamProg ε ν β) : (q >>= k).Waits := by
  obtain ⟨max, next, rfl⟩ := h
  exact ⟨max, _, rfl⟩

theorem standing_of_failed_or_waits (h : q.Failed ∨ q.Waits) :
    q.Standing ∧ ∀ x, q ≠ .pure x := by
  rcases h with ⟨e, rfl⟩ | ⟨max, next, rfl⟩
  · exact ⟨trivial, fun x h => absurd h (by simp)⟩
  · exact ⟨trivial, fun x h => absurd h (by simp)⟩

/-- **Programs that agree up to the failure of one both fail**: none returns, none waits in vain,
and every run ends. -/
theorem Duplex.fails_of_closing {p₂ : StreamProg ε ν β} (hp : StreamProg.Plays .left p script q)
    (hp₂ : StreamProg.Plays .right p₂ script r) (hq : q.Failed ∨ q.Waits)
    (hr : r.Failed ∨ r.Waits) (hfail : q.Failed ∨ r.Failed)
    (hends : (Duplex.start p p₂).EndFails)
    (h : Relation.ReflTransGen Duplex.Closing (.start p p₂) s) :
    (∀ x, s.left ≠ .pure x) ∧ (∀ y, s.right ≠ .pure y) ∧
      Acc (fun s' s => Duplex.Closing s s') s ∧
      (s.BothFailed ∨ ∃ s', Duplex.Closing s s') := by
  obtain ⟨hqstands, hqreturn⟩ := standing_of_failed_or_waits hq
  obtain ⟨hrstands, hrreturn⟩ := standing_of_failed_or_waits hr
  have hstays : ∀ {s s' : Duplex ε ν α β}, s.EndFails → s.Plays q r → Duplex.Closing s s' →
      (Duplex.Step s s' ∧ s'.Plays q r) ∨ s'.BothFailed := by
    rintro s s' hends hplays (hstep | ⟨hfailed, hbreaks⟩)
    · exact Or.inl ⟨hstep, hplays.step hqstands hrstands hstep⟩
    · exact Or.inr (hbreaks.bothFailed hends hfailed)
  have hinv : s.EndFails ∧ (s.Plays q r ∨ s.BothFailed) := by
    induction h with
    | refl => exact ⟨hends, Or.inl (Duplex.plays_start hp hp₂)⟩
    | tail _ hstep ih =>
      refine ⟨ih.1.closing hstep, ?_⟩
      rcases ih.2 with hplays | hboth
      · exact (hstays ih.1 hplays hstep).imp_left And.right
      · exact absurd hstep hboth.not_closing
  clear h
  obtain ⟨hends', hplays | hboth⟩ := hinv
  · refine ⟨hplays.ne_pure.1 hqreturn, hplays.ne_pure.2 hrreturn, ?_, ?_⟩
    · induction s using Duplex.step_wellFounded.induction with
      | _ s ih =>
        refine ⟨s, fun s' hclosing => ?_⟩
        rcases hstays hends' hplays hclosing with ⟨hstep, hplays'⟩ | hboth
        · exact ih s' hstep (hends'.closing hclosing) hplays'
        · exact ⟨s', fun s'' h => absurd h hboth.not_closing⟩
    · rcases hplays.exists_step with ⟨hl, hr', hin, hout⟩ | ⟨s', hstep⟩
      · by_cases hboth : s.BothFailed
        · exact Or.inl hboth
        refine Or.inr ?_
        rcases hfail with hfailed | hfailed
        · obtain ⟨max, next, hreceive⟩ := hr.resolve_left
            fun h => hboth ⟨hl ▸ hfailed, hr' ▸ h⟩
          exact ⟨_, Or.inr ⟨Or.inl (hl ▸ hfailed), .rightEnd (hr'.trans hreceive) hout⟩⟩
        · obtain ⟨max, next, hreceive⟩ := hq.resolve_left
            fun h => hboth ⟨hl ▸ h, hr' ▸ hfailed⟩
          exact ⟨_, Or.inr ⟨Or.inr (hr' ▸ hfailed), .leftEnd (hl.trans hreceive) hin⟩⟩
      · exact Or.inr ⟨s', Or.inl hstep⟩
  · exact ⟨fun x => hboth.1.ne_pure, fun y => hboth.2.ne_pure,
      ⟨s, fun s' h => absurd h hboth.not_closing⟩, Or.inl hboth⟩

end StreamProg
