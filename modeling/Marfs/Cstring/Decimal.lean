import Mathlib.Data.Nat.Digits.Defs

/-!
# Printed numbers

`decimal` and `padded` are what `snprintf` produces for the `%zu` and `%.*zu` families.
-/

namespace Marfs.Cstring

/-- `%u`, `%zu`, `%llu`: decimal digits, no leading zeros. -/
def decimal (n : Nat) : List Char := Nat.toDigits 10 n

/-- `%.*u` with precision `w`: decimal digits, zero-filled on the left to at least `w`. -/
def padded (w n : Nat) : List Char :=
  List.replicate (w - (decimal n).length) '0' ++ decimal n

/-- A longer number is not a smaller one. -/
theorem length_decimal_mono {i n : Nat} (h : i ≤ n) : (decimal i).length ≤ (decimal n).length := by
  have hpos : 0 < (decimal n).length := List.length_pos_iff.2 Nat.toDigits_ne_nil
  have hlt : n < 10 ^ (decimal n).length :=
    (Nat.length_toDigits_le_iff (by decide) hpos).1 (le_refl _)
  exact (Nat.length_toDigits_le_iff (by decide) hpos).2 (h.trans_lt hlt)

end Marfs.Cstring
