import Mathlib.Data.UInt

/-!
# Numbers as bytes

The bytes of an unsigned number in memory, the lowest one first.
-/

namespace Marfs.Machine

def leBytes : Nat → Nat → List UInt8
  | 0, _ => []
  | width + 1, n => UInt8.ofNat n :: leBytes width (n / 256)

def readLe : List UInt8 → Nat
  | [] => 0
  | byte :: bytes => byte.toNat + 256 * readLe bytes

@[simp] theorem leBytes_length (width n : Nat) : (leBytes width n).length = width := by
  induction width generalizing n with
  | zero => rfl
  | succ width ih => rw [leBytes, List.length_cons, ih]

theorem readLe_leBytes {width n : Nat} (h : n < 256 ^ width) : readLe (leBytes width n) = n := by
  induction width generalizing n with
  | zero =>
    rw [Nat.pow_zero] at h
    rw [leBytes, readLe]
    omega
  | succ width ih =>
    have hdiv : n / 256 < 256 ^ width := Nat.div_lt_of_lt_mul (by rwa [Nat.pow_succ, Nat.mul_comm] at h)
    rw [leBytes, readLe, ih hdiv, UInt8.toNat_ofNat']
    omega

end Marfs.Machine
