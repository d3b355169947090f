import Mathlib.Data.List.Basic
import Mathlib.Tactic.Common

/-!
# A channel that can be closed

A first-in, first-out channel with a capacity or without one. Closing it stops what comes in, and
leaves what is in the buffer to be taken.

`accepted` and `taken` are ghosts: everything that came in, and everything that went out. A channel
carries the proof that it loses nothing and keeps the order, and that it holds no more than its
capacity.

## Main results

* `Channel.log_eq` — what was taken, then the buffer, is what was accepted
* `Channel.Drained` — closed and empty: nothing comes in or goes out any more
-/

/-- A channel. -/
@[ext] structure Channel (α : Type) where
  capacity : Option ℕ
  buffer : List α
  closed : Bool
  accepted : List α
  taken : List α
  log_eq : taken ++ buffer = accepted
  bounded : ∀ n, capacity = some n → buffer.length ≤ n

namespace Channel

variable {α : Type} {c c' : Channel α} {x : α}

/-- An open and empty channel. -/
def new (capacity : Option ℕ) : Channel α where
  capacity
  buffer := []
  closed := false
  accepted := []
  taken := []
  log_eq := rfl
  bounded n _ := Nat.zero_le n

/-- There is no room in the buffer. -/
def full (c : Channel α) : Bool :=
  match c.capacity with
  | none => false
  | some n => decide (n ≤ c.buffer.length)

theorem length_lt_of_not_full {n : ℕ} (h : c.full = false) (hn : c.capacity = some n) :
    c.buffer.length < n := by
  simpa [full, hn] using h

/-- Let something in. -/
def push (c : Channel α) (x : α) (h : c.full = false) : Channel α where
  capacity := c.capacity
  buffer := c.buffer ++ [x]
  closed := c.closed
  accepted := c.accepted ++ [x]
  taken := c.taken
  log_eq := by rw [← List.append_assoc, c.log_eq]
  bounded n hn := by
    have hlt := length_lt_of_not_full h hn
    rw [List.length_append, List.length_singleton]
    omega

/-- Take the first out of a buffer that is not empty. -/
def pop (c : Channel α) (x : α) (rest : List α) (h : c.buffer = x :: rest) : Channel α where
  capacity := c.capacity
  buffer := rest
  closed := c.closed
  accepted := c.accepted
  taken := c.taken ++ [x]
  log_eq := by rw [← c.log_eq, h, List.append_assoc, List.singleton_append]
  bounded n hn := by
    have hle := c.bounded n hn
    rw [h, List.length_cons] at hle
    omega

/-- Let nothing in any more. -/
def close (c : Channel α) : Channel α := { c with closed := true }

/-- Closed and empty. -/
def Drained (c : Channel α) : Prop := c.closed = true ∧ c.buffer = []

/-- Everything accepted has been taken. -/
theorem Drained.taken_eq (h : c.Drained) : c.taken = c.accepted := by
  rw [← c.log_eq, h.2, List.append_nil]

end Channel
