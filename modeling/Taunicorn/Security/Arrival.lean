import Mathlib.Order.Bounds.Basic
import Taunicorn.Security.Delivery
import Taunicorn.Security.Grammar
import Taunicorn.Security.WireImage

/-!
# What arrives of concurrent messages

Any number of calls of `send` on one end of a session, of which some fail, and a sequence of calls
of `receive` on the other. Between them is the wire; what the receiver has of it is a part from its
beginning, cut anywhere, and then the end of the stream.

Which messages arrive is decided by whole frames. `receive` returns the plaintext of each frame that
has arrived in full, in the order of `send_state`, and nothing for one that has not: a piece of a
frame is read and thrown away, and the call fails as it does at the end.

## Main results

* `exists_complete` — a part of a sequence of frames
* `ImageInv.wire_frames` — the wire as frames that a receiver counts
* `receive_run_piece` — a piece of a frame
* `messages_arrive` — what the receiver returns
-/

/-! ### A part of a sequence of frames -/

variable {α : Type} [DecidableEq α] {frames : List (List α)} {last taken : List α}

/-- **A part of a sequence of frames**, and a rest behind it, is as many whole frames as fit, and
then a piece of the next one or a part of the rest. -/
theorem exists_complete (h : taken <+: frames.flatten ++ last) :
    ∃ complete after,
      IsGreatest {k | k ≤ frames.length ∧ (frames.take k).flatten <+: taken} complete ∧
      taken = (frames.take complete).flatten ++ after ∧
      ((∃ frame ∈ frames, after <+: frame ∧ after ≠ frame) ∨
        (complete = frames.length ∧ after <+: last)) := by
  let P : ℕ → Prop := fun k => (frames.take k).flatten <+: taken
  have hspec : P (Nat.findGreatest P frames.length) :=
    Nat.findGreatest_spec (Nat.zero_le _) (List.nil_prefix)
  generalize hk : Nat.findGreatest P frames.length = complete at hspec
  have hle : complete ≤ frames.length := hk ▸ Nat.findGreatest_le _
  obtain ⟨after, hafter⟩ := hspec
  refine ⟨complete, after, ⟨⟨hle, after, hafter⟩, fun k hk' => ?_⟩, hafter.symm, ?_⟩
  · exact hk ▸ Nat.le_findGreatest hk'.1 hk'.2
  rcases Nat.lt_or_ge complete frames.length with hlt | hge
  · left
    have hsucc : (frames.take (complete + 1)).flatten
        = (frames.take complete).flatten ++ frames.get ⟨complete, hlt⟩ := by
      rw [List.take_add_one, List.getElem?_eq_getElem hlt, List.flatten_append]
      simp
    have hwhole : (frames.take (complete + 1)).flatten <+: frames.flatten ++ last := by
      refine ⟨(frames.drop (complete + 1)).flatten ++ last, ?_⟩
      rw [← List.append_assoc, ← List.flatten_append, List.take_append_drop]
    have hnot : ¬(frames.take (complete + 1)).flatten <+: taken := by
      intro hfits
      have hgreatest := Nat.le_findGreatest (P := P) (show complete + 1 ≤ frames.length from hlt)
        hfits
      omega
    have hpiece := (List.prefix_or_prefix_of_prefix hwhole h).resolve_left hnot
    rw [hsucc, ← hafter, List.prefix_append_right_inj] at hpiece
    refine ⟨_, List.get_mem _ _, hpiece, ?_⟩
    intro heq
    have hfits : (frames.take (complete + 1)).flatten = taken := by
      rw [hsucc, ← heq, hafter]
    exact hnot (hfits ▸ List.prefix_rfl)
  · right
    have hall : complete = frames.length := by omega
    refine ⟨hall, ?_⟩
    rwa [← hafter, hall, List.take_length, List.prefix_append_right_inj] at h

namespace Taunicorn

namespace Security

open StreamProg Transport

/-! ### Calls that find the stream at its end -/

variable {cr : Crypto} {transcriptHash : Bytes transcriptHashSize} {state : DirectionState}

/-- A piece of a frame is no frame. -/
theorem readFrame_run_piece {payload bytes piece : List UInt8} {feed : Feed Error}
    (hframe : frame payload = .ok bytes) (hpiece : piece <+: bytes) (hne : piece ≠ bytes)
    (hcut : Cut piece feed) :
    readFrame.run feed =
      ⟨.error (.msg "connection closed while reading a frame"), [], [], []⟩ := by
  obtain ⟨hpos, hle, hbytes⟩ := frame_eq_ok hframe
  have hwhole : StartsWithFrame bytes payload :=
    ⟨List.length_pos_iff.mpr hpos, hle, hbytes ▸ List.prefix_refl _⟩
  rcases readFrame_cases hcut with ⟨other, -, hstarts, -⟩ | ⟨-, -, ⟨hlen, hbad⟩, -⟩ | ⟨-, -, hrun⟩
  · obtain rfl : other = payload :=
      StartsWithFrame.unique ⟨hstarts.1, hstarts.2.1, hstarts.2.2.trans hpiece⟩ hwhole
    have hshort := hpiece.length_le
    have hlong := hstarts.2.2.length_le
    rw [← hbytes] at hlong
    exact absurd (hpiece.eq_of_length (by omega)) hne
  · refine absurd ⟨hlen.trans hpiece.length_le, ?_⟩ hwhole.not_badLength
    obtain ⟨after, rfl⟩ := hpiece
    rwa [List.take_append_of_le_length hlen]
  · exact hrun

/-- A call of `receive` that is given a piece of a frame reads all of it, and fails. -/
theorem receive_run_piece {sent : DirectionState} {plaintext bytes piece : List UInt8}
    {feed : Feed Error} (hframe : IsFrameOf cr transcriptHash sent plaintext bytes)
    (hpiece : piece <+: bytes) (hne : piece ≠ bytes) (hcut : Cut piece feed) :
    (receive cr transcriptHash state).run feed =
      ⟨.error (.msg "connection closed while reading a frame"), [], [], []⟩ := by
  obtain ⟨ciphertext, -, hbytes⟩ := hframe
  rw [receive, run_bind, readFrame_run_piece hbytes hpiece hne hcut]
  rfl

/-- All calls fail that come after the end. -/
theorem receiveCalls_run_nil (n : ℕ) :
    receiveCalls cr transcriptHash n state [] =
      ⟨List.replicate n (.error (.msg "connection closed while reading a frame")),
        state, [], []⟩ := by
  induction n with
  | zero => rfl
  | succ n ih =>
    rw [receiveCalls, receive_run_nil]
    simp only [ih, List.replicate_succ, List.append_nil]

/-- A sequence of calls, in two parts. -/
theorem receiveCalls_add (m n : ℕ) (feed : Feed Error) :
    receiveCalls cr transcriptHash (m + n) state feed =
      let first := receiveCalls cr transcriptHash m state feed
      let later := receiveCalls cr transcriptHash n first.state first.rest
      ⟨first.results ++ later.results, later.state, later.rest, first.events ++ later.events⟩ := by
  induction m generalizing state feed with
  | zero =>
    rw [Nat.zero_add]
    rfl
  | succ m ih =>
    rw [show m + 1 + n = m + n + 1 by omega, receiveCalls, receiveCalls]
    cases ((receive cr transcriptHash state).run feed).result <;>
      simp only [ih, List.cons_append, List.append_assoc]

/-- What is left of the stream where no whole frame is. -/
def Scrap (cr : Crypto) (transcriptHash : Bytes transcriptHashSize) (after : List UInt8) : Prop :=
  after = [] ∨ ∃ state plaintext bytes, IsFrameOf cr transcriptHash state plaintext bytes ∧
    after <+: bytes ∧ after ≠ bytes

theorem Scrap.of_prefix {part after : List UInt8} (h : Scrap cr transcriptHash after)
    (hpart : part <+: after) : Scrap cr transcriptHash part := by
  rcases h with rfl | ⟨state, plaintext, bytes, hframe, hpiece, hne⟩
  · exact Or.inl (List.prefix_nil.mp hpart)
  · refine Or.inr ⟨state, plaintext, bytes, hframe, hpart.trans hpiece, ?_⟩
    rintro rfl
    exact hne (hpiece.eq_of_length (Nat.le_antisymm hpiece.length_le hpart.length_le))

/-- Where no whole frame is, all calls fail as they do at the end. -/
theorem Scrap.receiveCalls {after : List UInt8} {feed : Feed Error}
    (h : Scrap cr transcriptHash after) (hcut : Cut after feed) (n : ℕ) :
    ∃ rest, Security.receiveCalls cr transcriptHash n state feed =
      ⟨List.replicate n (.error (.msg "connection closed while reading a frame")), state, rest,
        []⟩ := by
  cases n with
  | zero => exact ⟨feed, rfl⟩
  | succ n =>
    refine ⟨[], ?_⟩
    have hcall : (receive cr transcriptHash state).run feed =
        ⟨.error (.msg "connection closed while reading a frame"), [], [], []⟩ := by
      rcases h with rfl | ⟨_, _, _, hframe, hpiece, hne⟩
      · rw [hcut.eq_nil]
        exact receive_run_nil
      · exact receive_run_piece hframe hpiece hne hcut
    rw [Security.receiveCalls, hcall]
    simp only [receiveCalls_run_nil, List.replicate_succ, List.append_nil]

/-! ### The frames of the accepted calls -/

variable {ι κ : Type} {connection : SecureConnection} {w : Sender ι κ}

/-- The plaintext of a call of `send`. -/
def Sender.plaintext (w : Sender ι κ) (id : ι) : List UInt8 :=
  (w.sends id).elim [] fun call => call.plaintext

/-- The counter has room for all accepted calls. -/
theorem ImageInv.accepted_lt (hinv : ImageInv cr connection w) :
    connection.sendState.sequence.toNat + w.accepted.length < 2 ^ 64 := by
  have hcounter := hinv.counter
  have hbound := w.sendState.sequence.toNat_lt
  rcases hinv.accepted_cases with heq | ⟨id, call, prog, hcall, hpc, hsucceeded, heq⟩
  · rw [heq]
    omega
  · obtain ⟨-, hstage⟩ := hinv.sender.fit id call hcall
    rw [hpc] at hstage
    obtain ⟨c, hc, -⟩ := (Option.any_eq_true _ _).mp hsucceeded
    obtain ⟨next, hnext⟩ : ∃ next, checkedSucc w.sendState.sequence = some next := by
      have hresidual := hstage.2
      rw [hc] at hresidual
      cases hresidual with
      | handing hnext => exact ⟨_, hnext⟩
      | handed hnext => exact ⟨_, hnext⟩
    have hnext := checkedSucc_eq_some_iff.mp hnext
    have hroom := next.toNat_lt
    rw [heq, List.length_append, List.length_singleton]
    omega

/-- **The wire, in frames**: one for each accepted call, and no whole frame behind them. -/
theorem ImageInv.wire_frames (hinv : ImageInv cr connection w) :
    ∃ last, w.core.shared.wire
        = (w.accepted.map fun id => w.core.delivered (.inl id)).flatten ++ last ∧
      Scrap cr connection.transcriptHash last := by
  obtain ⟨last, hsplit, hlast, -⟩ := hinv.order.torn.wire_split hinv.order.wire
  refine ⟨last, hinv.frames ▸ hsplit, ?_⟩
  rcases hlast with hnil | ⟨i, -, hne, rfl⟩
  · exact Or.inl hnil
  · obtain ⟨id, call, c, bytes, rfl, -, hc, hop, -, hlt, -, -, sequence, -, hframe⟩ :=
      hinv.loose hne
    rw [Core.handed_eq hc, Call.handed, hop]
    refine Or.inr ⟨_, _, bytes, hframe, List.take_prefix _ _, ?_⟩
    intro heq
    have hlen := congrArg List.length heq
    rw [List.length_take] at hlen
    change min c.written bytes.length = bytes.length at hlen
    omega

/-- The frame of an accepted call, by its place among them. -/
theorem ImageInv.frame_at (hinv : ImageInv cr connection w) {k : ℕ} {id : ι}
    (hid : w.accepted[k]? = some id) :
    NumberedFrame cr connection (connection.sendState.sequence.toNat + k) (w.plaintext id)
      (w.core.delivered (.inl id)) := by
  obtain ⟨call, hcall, hframe⟩ :=
    hinv.frame_of_succeeded (List.mem_filter.mp (List.mem_of_getElem? hid)).2
  have hnumber := congrArg (·[k]?) hinv.accepted_numbers
  simp only [List.getElem?_map, hid, Option.map_some] at hnumber
  rw [List.getElem?_range' (List.getElem?_eq_some_iff.mp hid).1, Option.some.injEq,
    Sender.number, hcall, Option.elim_some, Nat.one_mul] at hnumber
  refine ⟨call.sequence, hnumber, ?_⟩
  rwa [Sender.plaintext, hcall, Option.elim_some]

/-- Frames under consecutive sequence numbers are the frames of a list of messages. -/
theorem frames_of_numbered {plaintext bytes : ι → List UInt8} {ids : List ι}
    (hids : ∀ k id, ids[k]? = some id → ∃ sequence : UInt64,
      sequence.toNat = state.sequence.toNat + k ∧
        IsFrameOf cr transcriptHash { state with sequence := sequence } (plaintext id) (bytes id))
    (hcount : state.sequence.toNat + ids.length < 2 ^ 64) :
    ∃ final, Frames cr transcriptHash state (ids.map plaintext) (ids.map bytes).flatten final := by
  induction ids generalizing state with
  | nil => exact ⟨_, .nil state⟩
  | cons id ids ih =>
    rw [List.length_cons] at hcount
    obtain ⟨sequence, hsequence, hframe⟩ := hids 0 id rfl
    obtain rfl : sequence = state.sequence := UInt64.toNat_inj.mp hsequence
    obtain ⟨next, hnext⟩ : ∃ next, checkedSucc state.sequence = some next := by
      refine Option.ne_none_iff_exists'.mp fun hnone => ?_
      have hfull := checkedSucc_eq_none_iff.mp hnone
      omega
    have hvalue := checkedSucc_eq_some_iff.mp hnext
    obtain ⟨final, hfinal⟩ := @ih { state with sequence := next } (fun k j hj => by
      obtain ⟨sequence, hsequence, hframe⟩ := hids (k + 1) j hj
      exact ⟨sequence, by dsimp only; omega, hframe⟩) (by dsimp only; omega)
    exact ⟨final, .cons hframe hnext hfinal⟩

/-- The messages of the first accepted calls. -/
theorem ImageInv.frames_take (hinv : ImageInv cr connection w) (n : ℕ) :
    ∃ final, Frames cr connection.transcriptHash connection.sendState
      ((w.accepted.take n).map w.plaintext)
      ((w.accepted.take n).map fun id => w.core.delivered (.inl id)).flatten final := by
  refine frames_of_numbered (fun k id hk => ?_) ?_
  · rw [List.getElem?_take] at hk
    split at hk
    · exact hinv.frame_at hk
    · exact absurd hk.symm (Option.some_ne_none _)
  · have hroom := hinv.accepted_lt
    rw [List.length_take]
    omega

variable [DecidableEq ι] [DecidableEq κ]

/-- **What arrives.** In every run of any number of concurrent calls of `send`, none of them
dropped, beside any other calls that hand over no bytes, let the matching receiver have any part of
the wire from its beginning, cut anywhere, and call `receive` any number of times. Let `complete` be
the number of accepted frames that have arrived in full. Then the first `complete` calls return the
plaintexts of the accepted calls of `send`, in the order in which they held `send_state`; all later
calls fail; the counter has advanced by the messages returned; and if the receiver has all of the
wire, `complete` is all accepted calls. -/
theorem messages_arrive (haead : cr.AeadCorrect) {receiver : SecureConnection}
    (hstate : connection.sendState = receiver.receiveState)
    (hhash : connection.transcriptHash = receiver.transcriptHash)
    (h : Runs (Sender.step cr connection.transcriptHash) NoSendDropped (Sender.init connection) w)
    {taken : List UInt8} (htaken : taken <+: w.core.shared.wire) {feed : Feed Error}
    (hcut : Cut taken feed) (n : ℕ) :
    ∃ complete, IsGreatest {k | k ≤ w.accepted.length ∧
        ((w.accepted.take k).map fun id => w.core.delivered (.inl id)).flatten <+: taken}
        complete ∧
      (receiveCalls cr receiver.transcriptHash n receiver.receiveState feed).results
        = ((w.accepted.take (min n complete)).map fun id => .ok (w.plaintext id))
          ++ List.replicate (n - complete)
            (.error (.msg "connection closed while reading a frame")) ∧
      (receiveCalls cr receiver.transcriptHash n receiver.receiveState feed).state.sequence.toNat
        = connection.sendState.sequence.toNat + min n complete ∧
      (taken = w.core.shared.wire → complete = w.accepted.length) := by
  have hinv := imageInv_of_runs h
  obtain ⟨last, hwire, hlast⟩ := hinv.wire_frames
  obtain ⟨complete, after, hgreatest, hsplit, hafter⟩ := exists_complete (hwire ▸ htaken)
  simp only [List.length_map, ← List.map_take] at hgreatest hsplit hafter
  have hscrap : Scrap cr connection.transcriptHash after := by
    rcases hafter with ⟨bytes, hbytes, hpiece, hne⟩ | ⟨-, hpart⟩
    · obtain ⟨id, hid, rfl⟩ := List.mem_map.mp hbytes
      obtain ⟨k, hk⟩ := List.getElem?_of_mem hid
      obtain ⟨sequence, -, hframe⟩ := hinv.frame_at hk
      exact Or.inr ⟨_, _, _, hframe, hpiece, hne⟩
    · exact hlast.of_prefix hpart
  obtain ⟨final, hframes⟩ := hinv.frames_take (min n complete)
  have hfinal := hframes.final_eq
  have hlen : ((w.accepted.take (min n complete)).map w.plaintext).length = min n complete := by
    rw [List.length_map, List.length_take]
    have hle := hgreatest.1.1
    omega
  -- what the stream holds behind the messages that are returned
  obtain ⟨more, htaken', hmore⟩ : ∃ more, taken
      = ((w.accepted.take (min n complete)).map fun id => w.core.delivered (.inl id)).flatten
        ++ more ∧ (complete ≤ n → more = after) := by
    refine ⟨(((w.accepted.take complete).drop n).map fun id => w.core.delivered (.inl id)).flatten
      ++ after, ?_, fun hle => ?_⟩
    · rw [hsplit, ← List.append_assoc, ← List.flatten_append, ← List.map_append, ← List.take_take,
        List.take_append_drop]
    · rw [List.drop_of_length_le ((List.length_take_le _ _).trans hle)]
      rfl
  obtain ⟨feed', events, hcut', hfirst⟩ := receiveCalls_run haead hframes (htaken' ▸ hcut)
  rw [hlen] at hfirst hfinal
  obtain ⟨rest, more', hall⟩ : ∃ rest more', receiveCalls cr connection.transcriptHash n
      connection.sendState feed
        = ⟨((w.accepted.take (min n complete)).map w.plaintext).map .ok
            ++ List.replicate (n - complete)
              (.error (.msg "connection closed while reading a frame")),
          { connection.sendState with sequence := final }, rest, more'⟩ := by
    obtain ⟨rest, hlater⟩ : ∃ rest, receiveCalls cr connection.transcriptHash (n - complete)
        { connection.sendState with sequence := final } feed'
          = ⟨List.replicate (n - complete)
              (.error (.msg "connection closed while reading a frame")),
            { connection.sendState with sequence := final }, rest, []⟩ := by
      rcases Nat.lt_or_ge n complete with hlt | hge
      · rw [Nat.sub_eq_zero_of_le hlt.le]
        exact ⟨feed', rfl⟩
      · exact hscrap.receiveCalls (hmore hge ▸ hcut') _
    refine ⟨rest, events ++ [], ?_⟩
    rw [show n = min n complete + (n - complete) by omega, receiveCalls_add, hfirst]
    simp only [hlater]
    rw [← show n = min n complete + (n - complete) by omega]
  rw [← hstate, ← hhash, hall]
  refine ⟨complete, hgreatest, ?_, hfinal, fun heq => ?_⟩
  · rw [List.map_map]
    rfl
  · refine Nat.le_antisymm hgreatest.1.1 (hgreatest.2 ⟨le_rfl, ?_⟩)
    rw [heq, hwire, List.take_length]
    exact List.prefix_append _ _

/-- The wire of one call that has succeeded and of one that has failed behind three bytes, in two
pieces. -/
def piecewise : Feed Error :=
  [.ok (exampleSender.core.shared.wire.take 20), .ok (exampleSender.core.shared.wire.drop 20)]

theorem messages_arrive_example :
    (receiveCalls .transparent (exampleServer 1 1).transcriptHash 2
      (exampleServer 1 1).receiveState piecewise).results
        = [.ok [7], .error (.msg "connection closed while reading a frame")] := by
  have hcut : Cut exampleSender.core.shared.wire piecewise := by
    have hpieces : Cut (exampleSender.core.shared.wire.take 20
        ++ (exampleSender.core.shared.wire.drop 20 ++ [])) piecewise :=
      .cons (by decide) (.cons (by decide) .nil)
    rwa [List.append_nil, List.take_append_drop] at hpieces
  obtain ⟨complete, -, hresults, -, hcomplete⟩ := messages_arrive Crypto.transparent_aeadCorrect
    (show (exampleClient 1 1).sendState = (exampleServer 1 1).receiveState from rfl) rfl
    runs_exampleSender List.prefix_rfl hcut 2
  have haccepted : exampleSender.accepted = [0] := rfl
  rw [hcomplete rfl, haccepted] at hresults
  exact hresults

end Security

end Taunicorn
