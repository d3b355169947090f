import Mathlib.Data.List.Induction
import Mathlib.Tactic.Ring

/-!
# Fixed-width big-endian integers

The two directions every length prefix and sequence field goes through: a natural number as
exactly `k` bytes with the most significant first, and a byte string read back as a number.

Both are total. `toBytes k n` drops whatever does not fit into `k` bytes, and `ofBytes` reads
strings of any length, so the bound `n < 256 ^ k` is a hypothesis of the round trip and not part
of a definition.

## Main results

* `BigEndian.ofBytes_toBytes`, `toBytes_ofBytes` — the round trips
-/

namespace BigEndian

/-- `n` as `k` bytes, most significant first. -/
def toBytes : ℕ → ℕ → List UInt8
  | 0, _ => []
  | k + 1, n => toBytes k (n / 256) ++ [UInt8.ofNat n]

/-- The number a byte string denotes, most significant byte first. -/
def ofBytes (bytes : List UInt8) : ℕ := bytes.foldl (fun n b => n * 256 + b.toNat) 0

@[simp] theorem length_toBytes (k n : ℕ) : (toBytes k n).length = k := by
  induction k generalizing n with
  | zero => rfl
  | succ k ih => simp [toBytes, ih]

@[simp] theorem ofBytes_nil : ofBytes [] = 0 := rfl

/-- Reading appends at the low end, which is the shape of `toBytes`. -/
theorem ofBytes_concat (bytes : List UInt8) (b : UInt8) :
    ofBytes (bytes ++ [b]) = ofBytes bytes * 256 + b.toNat := by
  simp [ofBytes]

/-- Reading back what was written, when it fits. -/
theorem ofBytes_toBytes {k n : ℕ} (h : n < 256 ^ k) : ofBytes (toBytes k n) = n := by
  induction k generalizing n with
  | zero => simp only [pow_zero, Nat.lt_one_iff] at h; simp [toBytes, h]
  | succ k ih =>
    have hdiv : n / 256 < 256 ^ k := Nat.div_lt_of_lt_mul (by rwa [pow_succ'] at h)
    have hmod : (UInt8.ofNat n).toNat = n % 256 := by simp
    rw [toBytes, ofBytes_concat, ih hdiv, hmod]
    exact Nat.div_add_mod' n 256

theorem ofBytes_lt (bytes : List UInt8) : ofBytes bytes < 256 ^ bytes.length := by
  induction bytes using List.reverseRecOn with
  | nil => simp
  | append_singleton bytes b ih =>
    have hb : b.toNat < 256 := b.toNat_lt
    rw [ofBytes_concat, List.length_append, List.length_singleton, pow_succ]
    omega

/-- Writing back what was read, at the width it was read with. -/
theorem toBytes_ofBytes (bytes : List UInt8) : toBytes bytes.length (ofBytes bytes) = bytes := by
  induction bytes using List.reverseRecOn with
  | nil => rfl
  | append_singleton bytes b ih =>
    have hb : b.toNat < 256 := b.toNat_lt
    have hdiv : (ofBytes bytes * 256 + b.toNat) / 256 = ofBytes bytes := by omega
    have hlow : UInt8.ofNat (ofBytes bytes * 256 + b.toNat) = b := by
      apply UInt8.toNat_inj.mp
      rw [UInt8.toNat_ofNat']
      omega
    rw [List.length_append, List.length_singleton, ofBytes_concat, toBytes, hdiv, ih, hlow]

end BigEndian
