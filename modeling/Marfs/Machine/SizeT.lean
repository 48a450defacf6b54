import Mathlib.Algebra.Group.Nat.Defs
import Mathlib.Data.Nat.Basic

/-!
# `size_t` arithmetic

Sizes are naturals; only the operations that can wrap are written with their modulus.  A caller
whose operands are in order reads a subtraction back as the natural one (`sub_of_le`).
-/

namespace Marfs.Machine.SizeT

/-- The number of values of a 64-bit `size_t`. -/
def modulus : Nat := 2 ^ 64

/-- The value stored when `n` is converted to `size_t`. -/
def wrap (n : Nat) : Nat := n % modulus

/-- `a - b` on `size_t`: wraps around when `b` exceeds `a`. -/
def sub (a b : Nat) : Nat := (a + (modulus - b % modulus)) % modulus

theorem modulus_pos : 0 < modulus := by decide

theorem wrap_of_lt {n : Nat} (h : n < modulus) : wrap n = n := Nat.mod_eq_of_lt h

/-- A subtraction whose operands are in order does not wrap. -/
theorem sub_of_le {a b : Nat} (hab : b ≤ a) (ha : a < modulus) : sub a b = a - b := by
  have hb : b % modulus = b := Nat.mod_eq_of_lt (by omega)
  have hspl : a + (modulus - b) = (a - b) + modulus := by omega
  rw [sub, hb, hspl, Nat.add_mod_right, Nat.mod_eq_of_lt (by omega)]

theorem sub_of_diff_lt {a b : Nat} (hab : b ≤ a) (h : a - b < modulus) : sub a b = a - b := by
  have hlt : b % modulus < modulus := Nat.mod_lt _ modulus_pos
  have hspl := Nat.div_add_mod b modulus
  have hsum : a + (modulus - b % modulus) = (a - b) + modulus * (b / modulus + 1) := by
    rw [Nat.mul_add]
    omega
  rw [sub, hsum, Nat.add_mul_mod_self_left, Nat.mod_eq_of_lt h]

/-- A difference never comes out larger than it is. -/
theorem sub_le_of_le {a b : Nat} (hab : b ≤ a) : sub a b ≤ a - b := by
  have hlt : b % modulus < modulus := Nat.mod_lt _ modulus_pos
  have hspl := Nat.div_add_mod b modulus
  have hsum : a + (modulus - b % modulus) = (a - b) + modulus * (b / modulus + 1) := by
    rw [Nat.mul_add]
    omega
  rw [sub, hsum, Nat.add_mul_mod_self_left]
  exact Nat.mod_le _ _

theorem sub_self (a : Nat) : sub a a = 0 := by
  have h := sub_of_diff_lt (le_refl a) (by rw [Nat.sub_self]; exact modulus_pos)
  rw [h, Nat.sub_self]

end Marfs.Machine.SizeT
