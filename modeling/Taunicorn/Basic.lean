import Mathlib.Data.List.Basic
import Mathlib.Tactic.NormNum
import Taunicorn.Lib.BigEndian

/-!
# Bytes, counters and errors

The types both layers of the repository share: fixed-size byte arrays, the checked 64-bit
counter, and `anyhow` errors.

A byte array `[u8; N]` is a list with its length as a field, so that concatenating fields and
cutting a frame at field boundaries never needs a length hypothesis.
-/

namespace Taunicorn

/-- `[u8; n]`. -/
abbrev Bytes (n : ℕ) := { bytes : List UInt8 // bytes.length = n }

@[simp] theorem Bytes.length {n : ℕ} (b : Bytes n) : b.val.length = n := b.property

/-- `[b; n]`. -/
def Bytes.replicate (n : ℕ) (b : UInt8) : Bytes n := ⟨List.replicate n b, List.length_replicate⟩

/-- An `anyhow::Error`: a message, or a `std::io::Error` that can still be downcast. -/
inductive Error where
  /-- `anyhow!("..")` and `bail!("..")`. -/
  | msg (text : String)
  /-- `anyhow!(std::io::Error::other(e))`, with the text of `e`. -/
  | io (text : String)
  deriving DecidableEq, Repr

/-! ### The 64-bit counter -/

/-- `u64::checked_add(1)`. -/
def checkedSucc (n : UInt64) : Option UInt64 := if n.toNat + 1 < 2 ^ 64 then some (n + 1) else none

theorem checkedSucc_eq_some_iff {n m : UInt64} :
    checkedSucc n = some m ↔ m.toNat = n.toNat + 1 := by
  have hm := m.toNat_lt
  unfold checkedSucc
  split
  · next h =>
    rw [Option.some.injEq, ← UInt64.toNat_inj, UInt64.toNat_add, UInt64.toNat_one,
      Nat.mod_eq_of_lt h]
    exact eq_comm
  · next h => simp only [reduceCtorEq, false_iff]; omega

theorem checkedSucc_eq_none_iff {n : UInt64} : checkedSucc n = none ↔ n.toNat = 2 ^ 64 - 1 := by
  have hn := n.toNat_lt
  unfold checkedSucc
  split <;> simp <;> omega

/-- `u64::to_be_bytes`. -/
def toBeBytes (n : UInt64) : Bytes 8 := ⟨BigEndian.toBytes 8 n.toNat, BigEndian.length_toBytes 8 _⟩

/-- `u64::from_be_bytes`. -/
def fromBeBytes (b : Bytes 8) : UInt64 := UInt64.ofNat (BigEndian.ofBytes b.val)

theorem toNat_lt_pow (n : UInt64) : n.toNat < 256 ^ 8 := n.toNat_lt

@[simp] theorem fromBeBytes_toBeBytes (n : UInt64) : fromBeBytes (toBeBytes n) = n := by
  rw [fromBeBytes, toBeBytes, BigEndian.ofBytes_toBytes (toNat_lt_pow n)]
  exact UInt64.ofNat_toNat

theorem toNat_fromBeBytes (b : Bytes 8) : (fromBeBytes b).toNat = BigEndian.ofBytes b.val := by
  have hlt : BigEndian.ofBytes b.val < 256 ^ 8 := by
    have h := BigEndian.ofBytes_lt b.val
    rwa [b.property] at h
  rw [fromBeBytes, UInt64.toNat_ofNat']
  exact Nat.mod_eq_of_lt (hlt.trans_eq (by norm_num))

@[simp] theorem toBeBytes_fromBeBytes (b : Bytes 8) : toBeBytes (fromBeBytes b) = b := by
  have hround := BigEndian.toBytes_ofBytes b.val
  rw [b.property, ← toNat_fromBeBytes] at hround
  exact Subtype.ext hround

theorem toBeBytes_injective : Function.Injective toBeBytes :=
  Function.LeftInverse.injective fromBeBytes_toBeBytes

end Taunicorn
