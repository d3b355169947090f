import Taunicorn.Lib.Words
import Taunicorn.Transport.Causes

/-!
# The exceptions that errors of the transport become

`to_py_err` gives an error of the transport its Python class: `OSError` as long as it is an
`std::io::Error`, and otherwise by the first of a few words that its message has. Callers decide by
the class whether to try again, so that the class has to follow the cause of the error.

The messages are fixed texts, some with two counts in them. Only that of a raw write that fails in
`send` or `send_timeout` ends with a text of the operating system, and there the words may be the
system's.

## Main definitions

* `toPyErr` — `to_py_err`
* `FollowsCause` — the class tells of the cause
* `Harmless` — the operating system does not use the words

## Main results

* `class_follows_cause_iff` — when the class follows the cause, for every error in every run
* `raised_of_write_failure` — every text that a raw write fails with gets into a message
-/

namespace Taunicorn

/-- `err.downcast_ref::<std::io::Error>().is_some()`. -/
def Error.isIo : Error → Bool
  | .msg _ => false
  | .io _ => true

/-- `err.to_string()`. -/
def Error.message : Error → String
  | .msg text => text
  | .io text => text

namespace Python

open Transport Words

inductive ExceptionClass where
  | osError
  | timeoutError
  | blockingIOError
  | connectionError
  | valueError
  | runtimeError
  deriving DecidableEq, Repr

structure PyErr where
  cls : ExceptionClass
  message : String
  deriving DecidableEq, Repr

/-- `to_py_err`. -/
def toPyErr (err : Error) : PyErr :=
  let message := err.message
  if err.isIo then ⟨.osError, message⟩
  else if message.contains "timeout" then ⟨.timeoutError, message⟩
  else if message.contains "paused" then ⟨.blockingIOError, message⟩
  else if message.contains "closed" || message.contains "shut down" ||
      message.contains "stopped" then ⟨.connectionError, message⟩
  else if message.contains "must not be empty" then ⟨.valueError, message⟩
  else ⟨.runtimeError, message⟩

/-- The class of the exception tells of the cause of the error. -/
structure FollowsCause (cause : Cause) (e : Error) : Prop where
  timeout : (toPyErr e).cls = .timeoutError → cause = .deadline
  blocking : (toPyErr e).cls = .blockingIOError → cause = .paused
  value : (toPyErr e).cls = .valueError → cause = .emptyName
  os : (toPyErr e).cls = .osError ↔ e.isIo = true
  writeFailed : ∀ text, cause = .writeFailed text →
    (toPyErr e).cls ≠ .timeoutError ∧ (toPyErr e).cls ≠ .blockingIOError

/-- The text of a raw write that fails in `send` or `send_timeout` has neither of the words that
stand for a deadline and for a pause. -/
def Harmless : Cause → Prop
  | .writeFailed text => text.contains "timeout" = false ∧ text.contains "paused" = false
  | _ => True

/-- A text without the words that stand for a deadline, a pause and an empty name. -/
def Plain (text : String) : Prop :=
  text.contains "timeout" = false ∧ text.contains "paused" = false ∧
    text.contains "must not be empty" = false

instance (text : String) : Decidable (Plain text) :=
  decidable_of_iff (¬"timeout".toList <:+: text.toList ∧ ¬"paused".toList <:+: text.toList ∧
      ¬"must not be empty".toList <:+: text.toList)
    (by simp only [Plain, String.contains_string_eq_false_iff])

variable {cause : Cause} {e : Error} {text word : String}

/-! ### The class of a message -/

theorem cls_msg (text : String) : (toPyErr (.msg text)).cls =
    if text.contains "timeout" then .timeoutError
    else if text.contains "paused" then .blockingIOError
    else if text.contains "closed" || text.contains "shut down" || text.contains "stopped" then
      .connectionError
    else if text.contains "must not be empty" then .valueError
    else .runtimeError := by
  unfold toPyErr
  rw [apply_ite PyErr.cls, apply_ite PyErr.cls, apply_ite PyErr.cls, apply_ite PyErr.cls,
    apply_ite PyErr.cls]
  rfl

theorem cls_ne_osError (text : String) : (toPyErr (.msg text)).cls ≠ .osError := by
  rw [cls_msg]
  split_ifs <;> exact ExceptionClass.noConfusion

theorem cls_eq_timeoutError :
    (toPyErr (.msg text)).cls = .timeoutError ↔ text.contains "timeout" = true := by
  rw [cls_msg]
  split_ifs with htimeout <;> simp only [htimeout, reduceCtorEq]

theorem cls_eq_blockingIOError :
    (toPyErr (.msg text)).cls = .blockingIOError ↔
      text.contains "timeout" = false ∧ text.contains "paused" = true := by
  rw [cls_msg]
  split_ifs with htimeout hpaused
  · simp only [htimeout, reduceCtorEq, false_and]
  · simp only [htimeout, hpaused, and_self]
  all_goals simp only [hpaused, and_false, Bool.false_eq_true]

theorem not_valueError (h : text.contains "closed" = true ∨
    text.contains "must not be empty" = false) : (toPyErr (.msg text)).cls ≠ .valueError := by
  rw [cls_msg]
  split_ifs with htimeout hpaused hclosed hempty <;> try exact ExceptionClass.noConfusion
  rcases h with h | h
  · simp [h] at hclosed
  · exact absurd (h.symm.trans hempty) Bool.false_ne_true

/-! ### Messages that follow their cause -/

theorem FollowsCause.of_io (cause : Cause) (text : String) : FollowsCause cause (.io text) :=
  ⟨ExceptionClass.noConfusion, ExceptionClass.noConfusion, ExceptionClass.noConfusion,
    ⟨fun _ => rfl, fun _ => rfl⟩, fun _ _ => ⟨ExceptionClass.noConfusion,
      ExceptionClass.noConfusion⟩⟩

/-- A message is never an `OSError`. -/
theorem FollowsCause.of_msg
    (htimeout : (toPyErr (.msg text)).cls = .timeoutError → cause = .deadline)
    (hblocking : (toPyErr (.msg text)).cls = .blockingIOError → cause = .paused)
    (hvalue : (toPyErr (.msg text)).cls = .valueError → cause = .emptyName)
    (hwrite : ∀ raw, cause = .writeFailed raw →
      (toPyErr (.msg text)).cls ≠ .timeoutError ∧ (toPyErr (.msg text)).cls ≠ .blockingIOError) :
    FollowsCause cause (.msg text) :=
  ⟨htimeout, hblocking, hvalue,
    ⟨fun h => absurd h (cls_ne_osError text), fun h => absurd h Bool.false_ne_true⟩, hwrite⟩

/-- A message that has neither word does not say why, unless it speaks of an empty name. -/
theorem FollowsCause.of_quiet (htimeout : text.contains "timeout" = false)
    (hpaused : text.contains "paused" = false)
    (hvalue : (toPyErr (.msg text)).cls = .valueError → cause = .emptyName) :
    FollowsCause cause (.msg text) := by
  have htime : (toPyErr (.msg text)).cls ≠ .timeoutError := by
    rw [Ne, cls_eq_timeoutError, htimeout]
    exact Bool.false_ne_true
  have hblock : (toPyErr (.msg text)).cls ≠ .blockingIOError := by
    rw [Ne, cls_eq_blockingIOError, hpaused]
    exact fun h => Bool.false_ne_true h.2
  exact .of_msg (fun h => absurd h htime) (fun h => absurd h hblock) hvalue
    fun _ _ => ⟨htime, hblock⟩

theorem FollowsCause.of_plain (h : Plain text) (cause : Cause) : FollowsCause cause (.msg text) :=
  .of_quiet h.1 h.2.1 fun hvalue => absurd hvalue (not_valueError (Or.inr h.2.2))

/-- A `ConnectionError` never tells of the wrong cause. -/
theorem FollowsCause.of_connectionError (hcls : (toPyErr (.msg text)).cls = .connectionError) :
    FollowsCause cause (.msg text) := by
  refine .of_msg ?_ ?_ ?_ ?_
  all_goals rw [hcls]
  · exact ExceptionClass.noConfusion
  · exact ExceptionClass.noConfusion
  · exact ExceptionClass.noConfusion
  · exact fun _ _ => ⟨ExceptionClass.noConfusion, ExceptionClass.noConfusion⟩

theorem FollowsCause.of_timeout (h : text.contains "timeout" = true) :
    FollowsCause .deadline (.msg text) := by
  refine .of_msg (fun _ => rfl) ?_ ?_ fun _ => Cause.noConfusion
  all_goals rw [cls_eq_timeoutError.mpr h]; exact ExceptionClass.noConfusion

theorem FollowsCause.of_paused (htimeout : text.contains "timeout" = false)
    (hpaused : text.contains "paused" = true) : FollowsCause .paused (.msg text) := by
  refine .of_msg ?_ (fun _ => rfl) ?_ fun _ => Cause.noConfusion
  all_goals rw [cls_eq_blockingIOError.mpr ⟨htimeout, hpaused⟩]; exact ExceptionClass.noConfusion

/-! ### Messages with counts -/

/-- A message with two counts in it. -/
def counted (before : String) (written total : ℕ) (after : String) : String :=
  before ++ " " ++ toString written ++ " " ++ "of" ++ " " ++ toString total ++ " " ++ after

/-- A word of the classes, which has letters and no space. -/
structure IsWord (word : String) : Prop where
  space : ' ' ∉ word.toList
  letter : ∃ c ∈ word.toList, c.isDigit = false
  of : "of".contains word = false

theorem contains_counted (h : IsWord word) (before : String) (written total : ℕ) (after : String) :
    (counted before written total after).contains word
      = (before.contains word || after.contains word) := by
  obtain ⟨c, hmem, hc⟩ := h.letter
  simp only [counted, contains_append_space_append h.space, contains_toString_nat hmem hc, h.of,
    Bool.or_false]

theorem isWord_timeout : IsWord "timeout" :=
  ⟨by decide, ⟨'t', by decide, by decide⟩, String.contains_string_eq_false_iff.mpr (by decide)⟩

theorem isWord_paused : IsWord "paused" :=
  ⟨by decide, ⟨'p', by decide, by decide⟩, String.contains_string_eq_false_iff.mpr (by decide)⟩

theorem isWord_closed : IsWord "closed" :=
  ⟨by decide, ⟨'c', by decide, by decide⟩, String.contains_string_eq_false_iff.mpr (by decide)⟩

/-- A message with two counts, and with neither word in its fixed parts. -/
theorem FollowsCause.of_counted {before after : String} (hbefore : Plain before)
    (hafter : Plain after) (hclosed : (before.contains "closed" || after.contains "closed") = true)
    (cause : Cause) (written total : ℕ) :
    FollowsCause cause (.msg (counted before written total after)) := by
  refine .of_quiet ?_ ?_ fun hvalue => absurd hvalue (not_valueError (Or.inl ?_))
  · rw [contains_counted isWord_timeout, hbefore.1, hafter.1]
    rfl
  · rw [contains_counted isWord_paused, hbefore.2.1, hafter.2.1]
    rfl
  · rw [contains_counted isWord_closed, hclosed]

/-! ### The places where errors are made -/

theorem follows_of_flag {flag : Flag} (hflag : flag ≠ .paused) :
    FollowsCause .unavailable (.msg flag.text) := by
  cases flag with
  | closed => exact .of_plain (by decide) _
  | paused => exact absurd rfl hflag
  | readShutdown => exact .of_plain (by decide) _
  | writeShutdown => exact .of_plain (by decide) _
  | peerSentEof => exact .of_plain (by decide) _

theorem follows_closedAfter (data : List UInt8) (written : ℕ) :
    FollowsCause .unavailable (closedAfter data written) := by
  have hmessage : closedAfter data written
      = .msg (counted "socket connection closed after" written data.length
        "bytes were written; do not blindly retry the full buffer") := by
    simp only [closedAfter, counted, toString, String.append_assoc]
    rfl
  rw [hmessage]
  refine .of_counted (by decide) (by decide +kernel) ?_ _ written data.length
  rw [String.contains_string_iff.mpr (by decide), Bool.true_or]

theorem follows_zeroAfter (data : List UInt8) (written : ℕ) :
    FollowsCause .wroteNothing (zeroAfter data written) := by
  have hmessage : zeroAfter data written
      = .msg (counted "socket write returned zero after" written data.length
        "bytes; connection closed") := by
    simp only [zeroAfter, counted, toString, String.append_assoc]
    rfl
  rw [hmessage]
  refine .of_counted (by decide) (by decide) ?_ _ written data.length
  rw [Bool.or_eq_true]
  exact Or.inr (String.contains_string_iff.mpr (by decide))

theorem follows_afterProgress (data : List UInt8) (written : ℕ) :
    FollowsCause .deadline (afterProgress data written) := by
  have hmessage : afterProgress data written
      = .msg (counted "socket write timeout after" written data.length
        "bytes; connection closed because a partial prefix may have been written") := by
    simp only [afterProgress, counted, toString, String.append_assoc]
    rfl
  rw [hmessage]
  refine .of_timeout ?_
  rw [contains_counted isWord_timeout, String.contains_string_iff.mpr (by decide), Bool.true_or]

/-- **The class of a raw write that fails** in `send` or `send_timeout` is up to the text of the
operating system. -/
theorem cls_failedAfter (data : List UInt8) (written : ℕ) (text : String) :
    (toPyErr (failedAfter data written text)).cls
      = if text.contains "timeout" then .timeoutError
        else if text.contains "paused" then .blockingIOError
        else .connectionError := by
  let fixed := "bytes; connection closed because a partial prefix may have been written:"
  have hmessage : failedAfter data written text
      = .msg (counted "socket write failed after" written data.length (fixed ++ " " ++ text)) := by
    simp only [failedAfter, counted, fixed, toString, String.append_assoc]
    rfl
  have hcontains : ∀ {word : String}, IsWord word →
      (counted "socket write failed after" written data.length (fixed ++ " " ++ text)).contains word
        = ("socket write failed after".contains word ||
          (fixed.contains word || text.contains word)) := by
    intro word h
    rw [contains_counted h, contains_append_space_append h.space]
  have hbefore : Plain "socket write failed after" := by decide
  have hafter : Plain fixed := by decide +kernel
  have hclosed : fixed.contains "closed" = true :=
    String.contains_string_iff.mpr (by decide +kernel)
  rw [hmessage, cls_msg, hcontains isWord_timeout, hcontains isWord_paused,
    hcontains isWord_closed, hbefore.1, hbefore.2.1, hafter.1, hafter.2.1, hclosed]
  simp only [Bool.false_or, Bool.true_or, Bool.or_true, if_true]

theorem follows_failedAfter_iff (data : List UInt8) (written : ℕ) (text : String) :
    FollowsCause (.writeFailed text) (failedAfter data written text) ↔
      Harmless (.writeFailed text) := by
  have hcls := cls_failedAfter data written text
  constructor
  · intro h
    obtain ⟨htimeout, hblocking⟩ := h.writeFailed text rfl
    rw [hcls] at htimeout hblocking
    cases htime : text.contains "timeout" with
    | true => simp [htime] at htimeout
    | false =>
      cases hpause : text.contains "paused" with
      | true => simp [htime, hpause] at hblocking
      | false => exact ⟨htime, hpause⟩
  · rintro ⟨htime, hpause⟩
    rw [htime, hpause] at hcls
    exact .of_connectionError hcls

/-- **What the class of an error tells**, at every place where the transport makes one. -/
theorem follows_iff_of_site (h : Site cause e)
    (hnul : ∀ text, cause = .containsNul text → Plain text) :
    FollowsCause cause e ↔ Harmless cause := by
  have hempty : ∀ {text : String}, ¬"timeout".toList <:+: text.toList →
      ¬"paused".toList <:+: text.toList → FollowsCause .emptyName (.msg text) :=
    fun htimeout hpaused => .of_quiet (String.contains_string_eq_false_iff.mpr htimeout)
      (String.contains_string_eq_false_iff.mpr hpaused) fun _ => rfl
  have htimeout : ∀ {text : String}, "timeout".toList <:+: text.toList →
      FollowsCause .deadline (.msg text) :=
    fun h => .of_timeout (String.contains_string_iff.mpr h)
  have hpaused : ∀ {text : String}, ¬"timeout".toList <:+: text.toList →
      "paused".toList <:+: text.toList → FollowsCause .paused (.msg text) :=
    fun htimeout hpaused => .of_paused (String.contains_string_eq_false_iff.mpr htimeout)
      (String.contains_string_iff.mpr hpaused)
  cases h with
  | writeFailed data written text => exact follows_failedAfter_iff data written text
  | emptyEndpoint => exact iff_of_true (hempty (by decide) (by decide)) trivial
  | emptyName => exact iff_of_true (hempty (by decide) (by decide)) trivial
  | containsNul text => exact iff_of_true (.of_plain (hnul text rfl) _) trivial
  | failed text => exact iff_of_true (.of_io _ text) trivial
  | connectTimeout => exact iff_of_true (htimeout (by decide)) trivial
  | acceptTimeout => exact iff_of_true (htimeout (by decide)) trivial
  | readTimeout => exact iff_of_true (htimeout (by decide)) trivial
  | writeTimeout => exact iff_of_true (htimeout (by decide)) trivial
  | writeTimeoutAfter data written => exact iff_of_true (follows_afterProgress data written) trivial
  | serverPaused => exact iff_of_true (hpaused (by decide) (by decide)) trivial
  | serverStopped => exact iff_of_true (.of_plain (by decide) _) trivial
  | serverWasStopped => exact iff_of_true (.of_plain (by decide) _) trivial
  | paused => exact iff_of_true (hpaused (by decide) (by decide)) trivial
  | refused flag hflag => exact iff_of_true (follows_of_flag hflag) trivial
  | wasClosed => exact iff_of_true (.of_plain (by decide) _) trivial
  | wasShutDown => exact iff_of_true (.of_plain (by decide) _) trivial
  | closedAfter data written => exact iff_of_true (follows_closedAfter data written) trivial
  | wroteNothing => exact iff_of_true (.of_plain (by decide +kernel) _) trivial
  | wroteNothingAfter data written =>
    exact iff_of_true (follows_zeroAfter data written) trivial

/-! ### Errors in runs -/

/-- **When the class follows the cause.** In every run of calls that bind and connect, of the calls
of a server, and of those of a connection, every error was raised once, for one cause. Its class
follows that cause unless it is the failure of a raw write in `send` or `send_timeout`, with a text
that has one of the two words. -/
theorem class_follows_cause_iff {ν ω δ α ι : Type} [DecidableEq ι] {platform : Platform ν ω δ}
    (hnul : ∀ sddl text, platform.fromStr sddl = .error text → Plain text) :
    (establishing platform ι).Accounts { shared := () }
        (fun cause e => FollowsCause cause e ↔ Harmless cause) ∧
      (serving α ι).Accounts Server.bound (fun cause e => FollowsCause cause e ↔ Harmless cause) ∧
      (connecting ι).Accounts {} (fun cause e => FollowsCause cause e ↔ Harmless cause) := by
  refine ⟨establishing_accounts fun hsite hstr => follows_iff_of_site hsite fun text htext => ?_,
    serving_accounts fun hsite hne => follows_iff_of_site hsite fun text htext => ?_,
    connecting_accounts fun hsite hne => follows_iff_of_site hsite fun text htext => ?_⟩
  · obtain ⟨sddl, hsddl⟩ := hstr text htext
    exact hnul sddl text hsddl
  · exact absurd htext (hne text)
  · exact absurd htext (hne text)

/-- A platform that refuses a descriptor with a nul at its third place, and takes all else. -/
def windows : Platform String String String where
  toNsName := .ok
  fromStr sddl :=
    if sddl.toList[2]? = some (Char.ofNat 0) then .error "invalid nul value found at position 2"
    else .ok sddl
  deserialize := .ok

/-- A `bind` with such a descriptor. -/
def refusedBind : List (PoolLabel ℕ EstablishOp EstablishChoice Empty) :=
  [PoolLabel.call 0 (.bind "app" (some (.windows (String.ofList ['D', ':', Char.ofNat 0])))),
    .poll 0 .go]

def refusedEnd : Pool Unit (EstablishCall String String) ℕ × List (ℕ × Cause × Error) :=
  (runLabels (withHistory (establishing windows ℕ).step (establishing windows ℕ).raises)
    (fun _ _ => true) ({ shared := () }, []) refusedBind).getD ({ shared := () }, [])

theorem class_follows_cause_iff_refused :
    ∃ cause, raisedBy refusedEnd.2 0
        = [(cause, .msg "invalid nul value found at position 2")] ∧
      (FollowsCause cause (.msg "invalid nul value found at position 2") ↔ Harmless cause) := by
  have hplain : ∀ sddl text, windows.fromStr sddl = .error text → Plain text := by
    intro sddl text h
    simp only [windows] at h
    split_ifs at h
    cases h
    decide
  have hruns : Runs (withHistory (establishing windows ℕ).step (establishing windows ℕ).raises)
      (fun _ _ => True) ({ shared := () }, []) refusedEnd :=
    runs_of_runLabels (fun _ _ _ => trivial)
      (show runLabels _ (fun _ _ => true) ({ shared := () }, []) refusedBind = some refusedEnd
        from rfl)
  exact (class_follows_cause_iff (α := Unit) hplain).1 _ _ _ 0 _ hruns rfl

/-- A `send` of one byte, whose raw write fails. -/
def writeFailedRun (text : String) : List (ConnectionLabel ℕ) :=
  [ConnectionLabel.call 0 (.send [1])] ++ List.replicate 4 (ConnectionLabel.poll 0 .go) ++
    [ConnectionLabel.poll 0 .gate, .poll 0 .gate] ++
    List.replicate 5 (ConnectionLabel.poll 0 .go) ++ [ConnectionLabel.poll 0 (.fail text)] ++
    List.replicate 8 (ConnectionLabel.poll 0 .go)

def writeFailedEnd (text : String) : Connection ℕ × List (ℕ × Cause × Error) :=
  (runLabels (withHistory (connecting ℕ).step (connecting ℕ).raises) (fun _ _ => true) ({}, [])
    (writeFailedRun text)).getD ({}, [])

/-- **Every text that a raw write fails with gets into a message**, and the message is returned. -/
theorem raised_of_write_failure (text : String) :
    Runs (withHistory (connecting ℕ).step (connecting ℕ).raises) (fun _ _ => True) ({}, [])
        (writeFailedEnd text) ∧
      (writeFailedEnd text).1.outcome 0 = some (.error (failedAfter [1] 0 text)) ∧
      raisedBy (writeFailedEnd text).2 0 = [(.writeFailed text, failedAfter [1] 0 text)] := by
  refine ⟨runs_of_runLabels (fun _ _ _ => trivial)
    (show runLabels _ (fun _ _ => true) ({}, []) (writeFailedRun text)
      = some (writeFailedEnd text) from rfl), rfl, rfl⟩

/-- What Windows says for `ERROR_SEM_TIMEOUT`. -/
def semaphoreTimeout : String := "The semaphore timeout period has expired. (os error 121)"

/-- What Windows says for `ERROR_SHARING_PAUSED`. -/
def sharingPaused : String :=
  "The remote server has been paused or is in the process of being started. (os error 70)"

/-- **A raw write that fails can pass for a deadline or for a pause.** -/
theorem write_failure_misread :
    (toPyErr (failedAfter [1] 0 semaphoreTimeout)).cls = .timeoutError ∧
      (toPyErr (failedAfter [1] 0 sharingPaused)).cls = .blockingIOError ∧
      ¬(connecting ℕ).Accounts {} FollowsCause := by
  have htimeout : (toPyErr (failedAfter [1] 0 semaphoreTimeout)).cls = .timeoutError := by
    rw [cls_failedAfter, if_pos (String.contains_string_iff.mpr (by decide +kernel))]
  have hpaused : (toPyErr (failedAfter [1] 0 sharingPaused)).cls = .blockingIOError := by
    have hnot : ¬sharingPaused.contains "timeout" = true := by
      rw [String.contains_string_iff]
      decide +kernel
    rw [cls_failedAfter, if_neg hnot, if_pos (String.contains_string_iff.mpr (by decide +kernel))]
  refine ⟨htimeout, hpaused, fun hall => ?_⟩
  obtain ⟨hruns, houtcome, hraised⟩ := raised_of_write_failure semaphoreTimeout
  obtain ⟨cause, hcause, hfollows⟩ := hall _ _ _ 0 _ hruns (Connection.error_of_outcome houtcome)
  have hwrite : cause = .writeFailed semaphoreTimeout := by
    have hpair := List.cons.inj (hcause.symm.trans hraised)
    exact congrArg Prod.fst hpair.1
  exact Cause.noConfusion (hwrite.symm.trans (hfollows.timeout htimeout))

end Python

end Taunicorn
