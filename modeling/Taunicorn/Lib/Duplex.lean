import Mathlib.Logic.Relation
import Mathlib.Order.GameAdd
import Taunicorn.Lib.StreamProgram

/-!
# Two programs joined by two streams

Two stream programs, each sending what the other receives, over a reliable FIFO stream in each
direction. Bytes that were sent and not yet received wait in the stream; a read takes any
non-empty prefix of them that is not longer than it asked for, and a write may hand over its bytes
in pieces.

## The argument

The two programs agree on a *script*: the bytes of the whole conversation, each with the side that
sends it. `Follows` says that a program plays its side of a script, however the incoming bytes are
cut. Along a run the two programs stand at two places of one script, and the bytes between them
are exactly the ones in flight. So a program that waits always waits for bytes that are in flight
or that the other side is about to send.

## Main results

* `Follows.acts` — one operation keeps the place in the script
* `Duplex.follows_of_reachable`, `Duplex.exists_step` — the invariant, and progress
* `Duplex.step_wellFounded` — every run ends
-/

/-- The two ends of a pair of streams. -/
inductive Side where
  | left
  | right
  deriving DecidableEq, Repr

/-- The opposite side. -/
def Side.other : Side → Side
  | .left => .right
  | .right => .left

theorem Side.other_ne (side : Side) : side.other ≠ side := by cases side <;> decide

@[simp] theorem Side.other_other (side : Side) : side.other.other = side := by cases side <;> rfl

theorem Side.eq_or_eq_other (side d : Side) : d = side ∨ d = side.other := by
  cases side <;> cases d <;> decide

namespace StreamProg

variable {ε ν α β : Type}

/-! ### One side -/

/-- One operation of a program whose incoming bytes wait in one list and whose outgoing bytes join
the end of another. -/
inductive Acts : StreamProg ε ν α → List UInt8 → List UInt8 →
    StreamProg ε ν α → List UInt8 → List UInt8 → Prop
  | received {max : ℕ} {next : Received → StreamProg ε ν α} {chunk inbox outbox : List UInt8} :
      chunk ≠ [] → chunk.length ≤ max →
      Acts (.receive max next) (chunk ++ inbox) outbox (next (.data chunk)) inbox outbox
  | sent {bytes inbox outbox : List UInt8} {next : StreamProg ε ν α} :
      Acts (.send bytes next) inbox outbox next inbox (outbox ++ bytes)
  | sentPart {first later inbox outbox : List UInt8} {next : StreamProg ε ν α} : first ≠ [] →
      Acts (.send (first ++ later) next) inbox outbox (.send later next) inbox (outbox ++ first)
  | noted {event : ν} {inbox outbox : List UInt8} {next : StreamProg ε ν α} :
      Acts (.note event next) inbox outbox next inbox outbox

/-- `Follows side p script a`: `p` sends the bytes of its side of the script and receives those of
the other side, in the script's order and in whatever chunks they come, and then returns `a`. -/
inductive Follows (side : Side) : StreamProg ε ν α → List (Side × UInt8) → α → Prop
  | pure (a : α) : Follows side (.pure a) [] a
  | note {event : ν} {next : StreamProg ε ν α} {script : List (Side × UInt8)} {a : α} :
      Follows side next script a → Follows side (.note event next) script a
  | send {bytes : List UInt8} {next : StreamProg ε ν α} {script : List (Side × UInt8)} {a : α} :
      Follows side next script a →
      Follows side (.send bytes next) (bytes.map (Prod.mk side) ++ script) a
  | receive {max : ℕ} {next : Received → StreamProg ε ν α} {byte : UInt8}
      {script : List (Side × UInt8)} {a : α} : 0 < max →
      (∀ chunk rest, chunk ≠ [] → chunk.length ≤ max →
        (side.other, byte) :: script = chunk.map (Prod.mk side.other) ++ rest →
        Follows side (next (.data chunk)) rest a) →
      Follows side (.receive max next) ((side.other, byte) :: script) a

variable {side : Side} {p p' : StreamProg ε ν α} {a : α} {script : List (Side × UInt8)}

/-- A program whose next bytes in the script are the other side's has nothing to send. -/
private theorem eq_nil_of_map_append {inbox bytes : List UInt8} {rest : List (Side × UInt8)}
    (hin : inbox ≠ []) (h : bytes.map (Prod.mk side) ++ rest
      = inbox.map (Prod.mk side.other) ++ script) : bytes = [] := by
  cases bytes with
  | nil => rfl
  | cons b bytes =>
    cases inbox with
    | nil => exact absurd rfl hin
    | cons c inbox =>
      have hhead := (List.cons.inj h).1
      exact absurd (congrArg Prod.fst hhead).symm side.other_ne

/-- A chunk that is no longer than the bytes the other side sends next lies inside them. -/
theorem exists_of_map_append_eq {missing chunk : List UInt8} {rest : List (Side × UInt8)}
    (h : missing.map (Prod.mk side) ++ script = chunk.map (Prod.mk side) ++ rest)
    (hle : chunk.length ≤ missing.length) :
    ∃ later, missing = chunk ++ later ∧ rest = later.map (Prod.mk side) ++ script := by
  have hinj : Function.Injective (List.map (Prod.mk side : UInt8 → Side × UInt8)) :=
    List.map_injective_iff.mpr (Prod.mk_right_injective side)
  rcases List.append_eq_append_iff.mp h with ⟨x, hx, hrest⟩ | ⟨x, hx, hrest⟩
  · have hlen := congrArg List.length hx
    simp only [List.length_append, List.length_map] at hlen
    obtain rfl : x = [] := List.length_eq_zero_iff.mp (by omega)
    rw [List.append_nil] at hx
    exact ⟨[], by rw [hinj hx, List.append_nil], by simpa using hrest.symm⟩
  · obtain ⟨first, later, rfl, hfirst, rfl⟩ := List.map_eq_append_iff.mp hx
    exact ⟨later, by rw [hinj hfirst], hrest⟩

/-- **One operation.** A program that is to receive the bytes waiting for it, and then to go on
with the script, does so; what it sends is the next part of the script, and it sends nothing while
bytes wait. -/
theorem Follows.acts {inbox outbox inbox' outbox' : List UInt8}
    (h : Follows side p (inbox.map (Prod.mk side.other) ++ script) a)
    (hacts : Acts p inbox outbox p' inbox' outbox') :
    ∃ script' bytes, Follows side p' (inbox'.map (Prod.mk side.other) ++ script') a ∧
      outbox' = outbox ++ bytes ∧ script = bytes.map (Prod.mk side) ++ script' ∧
      (inbox' ≠ [] → bytes = [] ∧ inbox ≠ []) := by
  generalize hplace : inbox.map (Prod.mk side.other) ++ script = place at h
  cases hacts with
  | @received max next chunk _ _ hchunk hle =>
    cases h with
    | receive _ hnext =>
      refine ⟨script, [], hnext chunk _ hchunk hle ?_, by simp, rfl, fun _ => ⟨rfl, ?_⟩⟩
      · rw [← hplace, List.map_append, List.append_assoc]
      · simp [hchunk]
  | @sent bytes _ _ _ =>
    cases h with
    | @send _ _ rest _ hnext =>
      by_cases hin : inbox = []
      · subst hin
        exact ⟨rest, bytes, hnext, rfl, by simpa using hplace, fun h => absurd rfl h⟩
      · obtain rfl := eq_nil_of_map_append hin hplace.symm
        refine ⟨script, [], ?_, rfl, rfl, fun h => ⟨rfl, h⟩⟩
        rw [hplace]; exact hnext
  | @sentPart first later _ _ _ hfirst =>
    generalize hall : first ++ later = bytes at h
    cases h with
    | @send _ _ rest _ hnext =>
      subst hall
      by_cases hin : inbox = []
      · subst hin
        refine ⟨_, first, .send hnext, rfl, ?_, fun h => absurd rfl h⟩
        simpa using hplace
      · have hnil := eq_nil_of_map_append hin hplace.symm
        exact absurd (List.append_eq_nil_iff.mp hnil).1 hfirst
  | noted =>
    cases h with
    | note hnext =>
      refine ⟨script, [], ?_, by simp, rfl, fun h => ⟨rfl, h⟩⟩
      rw [hplace]; exact hnext

/-! ### Both sides -/

/-- Two programs and the bytes in flight between them. -/
structure Duplex (ε ν α β : Type) where
  left : StreamProg ε ν α
  right : StreamProg ε ν β
  toRight : List UInt8
  toLeft : List UInt8

/-- Two programs before they start. -/
def Duplex.start (p : StreamProg ε ν α) (q : StreamProg ε ν β) : Duplex ε ν α β := ⟨p, q, [], []⟩

/-- One operation of one of the programs. -/
inductive Duplex.Step : Duplex ε ν α β → Duplex ε ν α β → Prop
  | left {s : Duplex ε ν α β} {p : StreamProg ε ν α} {toRight toLeft : List UInt8} :
      Acts s.left s.toLeft s.toRight p toLeft toRight → Step s ⟨p, s.right, toRight, toLeft⟩
  | right {s : Duplex ε ν α β} {q : StreamProg ε ν β} {toRight toLeft : List UInt8} :
      Acts s.right s.toRight s.toLeft q toRight toLeft → Step s ⟨s.left, q, toRight, toLeft⟩

/-- Reachable by any number of operations, in any order. -/
abbrev Duplex.Reachable : Duplex ε ν α β → Duplex ε ν α β → Prop :=
  Relation.ReflTransGen Duplex.Step

/-- Both programs follow one script, and stand at places of it that the bytes in flight lie
between. Only one direction can have bytes in flight. -/
def Duplex.Follows (s : Duplex ε ν α β) (a : α) (b : β) : Prop :=
  ∃ script, StreamProg.Follows .left s.left (s.toLeft.map (Prod.mk .right) ++ script) a ∧
    StreamProg.Follows .right s.right (s.toRight.map (Prod.mk .left) ++ script) b ∧
    (s.toLeft = [] ∨ s.toRight = [])

variable {s s' : Duplex ε ν α β} {b : β}

theorem Duplex.Follows.step (h : s.Follows a b) (hstep : Duplex.Step s s') : s'.Follows a b := by
  obtain ⟨script, hleft, hright, hempty⟩ := h
  cases hstep with
  | @left p toRight toLeft hacts =>
    obtain ⟨script', bytes, hnext, hout, rfl, hwaits⟩ := hleft.acts hacts
    refine ⟨script', hnext, ?_, ?_⟩
    · rw [hout, List.map_append, List.append_assoc]; exact hright
    · by_cases hin : toLeft = []
      · exact Or.inl hin
      · obtain ⟨rfl, hbefore⟩ := hwaits hin
        exact Or.inr (by rw [hout, hempty.resolve_left hbefore, List.append_nil])
  | @right q toRight toLeft hacts =>
    obtain ⟨script', bytes, hnext, hout, rfl, hwaits⟩ := hright.acts hacts
    refine ⟨script', ?_, hnext, ?_⟩
    · rw [hout, List.map_append, List.append_assoc]; exact hleft
    · by_cases hin : toRight = []
      · exact Or.inr hin
      · obtain ⟨rfl, hbefore⟩ := hwaits hin
        exact Or.inl (by rw [hout, hempty.resolve_right hbefore, List.append_nil])

/-- **The invariant.** Programs that follow one script do so in every reachable state. -/
theorem Duplex.follows_of_reachable {p : StreamProg ε ν α} {q : StreamProg ε ν β}
    (hp : StreamProg.Follows .left p script a) (hq : StreamProg.Follows .right q script b)
    (h : Duplex.Reachable (.start p q) s) : s.Follows a b := by
  induction h with
  | refl => exact ⟨script, hp, hq, Or.inl rfl⟩
  | tail _ hstep ih => exact ih.step hstep

/-- A program that follows a script has not failed, and what it has returned is what it was to
return. -/
theorem Follows.returned (h : Follows side p script a) :
    (∀ e, p ≠ .fail e) ∧ ∀ a', p = .pure a' → a' = a := by
  cases h with
  | pure a => exact ⟨nofun, fun a' h => (StreamProg.pure.inj h).symm⟩
  | note _ => exact ⟨nofun, nofun⟩
  | send _ => exact ⟨nofun, nofun⟩
  | receive _ _ => exact ⟨nofun, nofun⟩

/-- Where a program stands that follows a script: it can act whatever it is sent, it waits for a
byte of the other side, or the script is at its end and it has returned. -/
theorem Follows.cases_enabled (h : Follows side p script a) :
    (∀ inbox outbox, ∃ p' outbox', Acts p inbox outbox p' inbox outbox') ∨
      ((∃ byte rest, script = (side.other, byte) :: rest) ∧
        ∀ byte inbox outbox, ∃ p', Acts p (byte :: inbox) outbox p' inbox outbox) ∨
      (script = [] ∧ p = .pure a) := by
  cases h with
  | pure a => exact Or.inr (Or.inr ⟨rfl, rfl⟩)
  | note _ => exact Or.inl fun _ _ => ⟨_, _, .noted⟩
  | send _ => exact Or.inl fun _ _ => ⟨_, _, .sent⟩
  | @receive max next byte rest a hmax _ =>
    refine Or.inr (Or.inl ⟨⟨byte, rest, rfl⟩, fun byte' inbox outbox =>
      ⟨next (.data [byte']), ?_⟩⟩)
    change Acts _ ([byte'] ++ inbox) _ _ _ _
    exact .received (by simp) hmax

/-- **Progress.** Before both programs have returned, one of them can act. -/
theorem Duplex.Follows.exists_step (h : s.Follows a b) :
    (s.left = .pure a ∧ s.right = .pure b) ∨ ∃ s', Duplex.Step s s' := by
  obtain ⟨script, hleft, hright, -⟩ := h
  have hleftStep : s.toLeft ≠ [] → (∀ byte inbox outbox, ∃ p',
      Acts s.left (byte :: inbox) outbox p' inbox outbox) → ∃ s', Duplex.Step s s' := by
    intro hne hread
    obtain ⟨byte, inbox, hin⟩ := List.exists_cons_of_ne_nil hne
    obtain ⟨p', hacts⟩ := hread byte inbox s.toRight
    exact ⟨_, .left (by rw [hin]; exact hacts)⟩
  have hrightStep : s.toRight ≠ [] → (∀ byte inbox outbox, ∃ q',
      Acts s.right (byte :: inbox) outbox q' inbox outbox) → ∃ s', Duplex.Step s s' := by
    intro hne hread
    obtain ⟨byte, inbox, hin⟩ := List.exists_cons_of_ne_nil hne
    obtain ⟨q', hacts⟩ := hread byte inbox s.toLeft
    exact ⟨_, .right (by rw [hin]; exact hacts)⟩
  rcases hleft.cases_enabled with hact | ⟨⟨x, rest, hx⟩, hread⟩ | ⟨hnil, hret⟩
  · obtain ⟨p', outbox', hacts⟩ := hact s.toLeft s.toRight
    exact Or.inr ⟨_, .left hacts⟩
  · by_cases hin : s.toLeft = []
    · -- the script is at a byte of the right side, so the right side is not waiting for the left
      rcases hright.cases_enabled with hact | ⟨⟨y, rest', hy⟩, hread'⟩ | ⟨hnil, -⟩
      · obtain ⟨q', outbox', hacts⟩ := hact s.toRight s.toLeft
        exact Or.inr ⟨_, .right hacts⟩
      · refine Or.inr (hrightStep (fun hout => ?_) hread')
        rw [hin] at hx
        rw [hout] at hy
        exact absurd ((List.cons.inj (hx.symm.trans hy)).1) (by simp [Side.other])
      · rw [hin] at hx
        rw [List.append_eq_nil_iff] at hnil
        exact absurd (hx.symm.trans hnil.2) (by simp)
    · exact Or.inr (hleftStep hin hread)
  · obtain ⟨-, rfl⟩ := List.append_eq_nil_iff.mp hnil
    rcases hright.cases_enabled with hact | ⟨⟨y, rest', hy⟩, hread'⟩ | ⟨-, hret'⟩
    · obtain ⟨q', outbox', hacts⟩ := hact s.toRight s.toLeft
      exact Or.inr ⟨_, .right hacts⟩
    · refine Or.inr (hrightStep (fun hout => ?_) hread')
      rw [hout] at hy
      exact absurd hy (by simp)
    · exact Or.inl ⟨hret, hret'⟩

/-! ### Termination -/

/-- `p'` comes from `p` by one operation. -/
def After (p' p : StreamProg ε ν α) : Prop :=
  ∃ inbox outbox inbox' outbox', Acts p inbox outbox p' inbox' outbox'

theorem after_wellFounded : WellFounded (After : StreamProg ε ν α → StreamProg ε ν α → Prop) := by
  refine ⟨fun p => ?_⟩
  induction p with
  | pure a => exact ⟨_, fun _ ⟨_, _, _, _, h⟩ => nomatch h⟩
  | fail e => exact ⟨_, fun _ ⟨_, _, _, _, h⟩ => nomatch h⟩
  | receive max next ih =>
    refine ⟨_, fun q ⟨_, _, _, _, h⟩ => ?_⟩
    cases h with
    | received _ _ => exact ih _
  | send bytes next ih =>
    -- a write in pieces gets shorter with every piece
    induction hlen : bytes.length using Nat.strong_induction_on generalizing bytes with
    | _ n ihlen =>
      refine ⟨_, fun q ⟨_, _, _, _, h⟩ => ?_⟩
      generalize hp : StreamProg.send bytes next = p at h
      cases h with
      | received _ _ => cases hp
      | sent => cases hp; exact ih
      | @sentPart first later _ _ _ hfirst =>
        cases hp
        have hpos := List.length_pos_iff.mpr hfirst
        exact ihlen later.length (by rw [← hlen, List.length_append]; omega) later rfl
      | noted => cases hp
  | note event next ih =>
    refine ⟨_, fun q ⟨_, _, _, _, h⟩ => ?_⟩
    cases h with
    | noted => exact ih

/-- **Every run ends.** -/
theorem Duplex.step_wellFounded :
    WellFounded fun s' s : Duplex ε ν α β => Duplex.Step s s' := by
  refine Subrelation.wf ?_ (InvImage.wf (fun s : Duplex ε ν α β => (s.left, s.right))
    (after_wellFounded.prod_gameAdd after_wellFounded))
  intro s' s h
  cases h with
  | left hacts => exact Prod.GameAdd.fst ⟨_, _, _, _, hacts⟩
  | right hacts => exact Prod.GameAdd.snd ⟨_, _, _, _, hacts⟩

/-- Programs that follow one script both return, in whatever order they act. -/
theorem Duplex.Follows.exists_returned (h : s.Follows a b) :
    ∃ s', Duplex.Reachable s s' ∧ s'.left = .pure a ∧ s'.right = .pure b := by
  induction s using Duplex.step_wellFounded.induction with
  | _ s ih =>
    rcases h.exists_step with ⟨hl, hr⟩ | ⟨s₁, hstep⟩
    · exact ⟨s, .refl, hl, hr⟩
    · obtain ⟨s', hreach, hret⟩ := ih s₁ hstep (h.step hstep)
      exact ⟨s', .head hstep hreach, hret⟩

end StreamProg
