import Mathlib.Data.Matrix.Mul
import Mathlib.Algebra.Module.BigOperators

/-!
# Systematic erasure codes

A stripe of `k` data parts is encoded into parts that are combinations of them; the first `k` parts are the
data parts themselves.  Any `k` parts whose rows form an invertible matrix determine all others:
`recoverRow` is the row that combines them into a part that is wanted.  `Mds` says that any `k` of the first
`n` parts will do.
-/

namespace Marfs.Erasure

open Matrix

variable {k : ℕ} {F V : Type*} [Field F] [AddCommGroup V] [Module F V]

def part (encode : ℕ → Fin k → F) (data : Fin k → V) (r : ℕ) : V := ∑ j, encode r j • data j

/-- The first parts are the data parts. -/
def Systematic (encode : ℕ → Fin k → F) : Prop := ∀ j : Fin k, encode j = Pi.single j 1

/-- The rows of the parts that are read. -/
def chosen (encode : ℕ → Fin k → F) (index : Fin k → ℕ) : Matrix (Fin k) (Fin k) F :=
  Matrix.of fun i j => encode (index i) j

/-- Any `k` of the first `n` parts determine the stripe. -/
def Mds (encode : ℕ → Fin k → F) (n : ℕ) : Prop :=
  ∀ index : Fin k → ℕ, Function.Injective index → (∀ i, index i < n) → IsUnit (chosen encode index)

/-- How the parts that are read combine into part `r`, where `inv` is the inverse of their rows: a row of the
inverse for a data part, and a combination of its rows for any other. -/
def recoverRow (encode : ℕ → Fin k → F) (inv : Matrix (Fin k) (Fin k) F) (r : ℕ) : Fin k → F :=
  if h : r < k then inv ⟨r, h⟩ else fun i => ∑ j, inv j i * encode r j

variable {encode : ℕ → Fin k → F} {index : Fin k → ℕ} {inv : Matrix (Fin k) (Fin k) F}

theorem part_of_systematic (hsys : Systematic encode) (data : Fin k → V) (j : Fin k) :
    part encode data j = data j := by
  rw [part, hsys j, Finset.sum_eq_single j]
  · rw [Pi.single_eq_same, one_smul]
  · intro i _ hne
    rw [Pi.single_eq_of_ne hne, zero_smul]
  · intro hj
    exact absurd (Finset.mem_univ j) hj

theorem inv_smul (hinv : inv * chosen encode index = 1) (data : Fin k → V) (j : Fin k) :
    ∑ i, inv j i • part encode data (index i) = data j := by
  have hent (m : Fin k) : ∑ i, inv j i * encode (index i) m = (1 : Matrix (Fin k) (Fin k) F) j m := by
    rw [← hinv, Matrix.mul_apply]
    rfl
  calc ∑ i, inv j i • part encode data (index i)
      = ∑ i, ∑ m, (inv j i * encode (index i) m) • data m := by
        simp only [part, Finset.smul_sum, smul_smul]
    _ = ∑ m, (∑ i, inv j i * encode (index i) m) • data m := by
        rw [Finset.sum_comm]
        simp only [Finset.sum_smul]
    _ = ∑ m, (1 : Matrix (Fin k) (Fin k) F) j m • data m := by
        simp only [hent]
    _ = data j := by
        simp only [Matrix.one_apply, ite_smul, one_smul, zero_smul, Finset.sum_ite_eq, Finset.mem_univ,
          if_true]

theorem recoverRow_smul (hsys : Systematic encode) (hinv : inv * chosen encode index = 1) (data : Fin k → V)
    (r : ℕ) : ∑ i, recoverRow encode inv r i • part encode data (index i) = part encode data r := by
  by_cases hr : r < k
  · rw [recoverRow, dif_pos hr, inv_smul hinv]
    exact (part_of_systematic hsys data ⟨r, hr⟩).symm
  · rw [recoverRow, dif_neg hr]
    calc ∑ i, (∑ j, inv j i * encode r j) • part encode data (index i)
        = ∑ j, encode r j • ∑ i, inv j i • part encode data (index i) := by
          simp only [Finset.sum_smul, Finset.smul_sum, smul_smul]
          rw [Finset.sum_comm]
          simp only [mul_comm]
      _ = part encode data r := by
          simp only [inv_smul hinv]
          rfl

end Marfs.Erasure
