import Mathlib.Order.Lattice
import Mathlib.Order.Nat

/-!
# Bracketing a value in an ascending sequence

A bisection keeps a `Bracket`: everything before it is too low, and everything behind it too high.
When it has closed, the sequence, taken as a ring, goes on there with the successor of the value.
Where the value itself was found, the positions that have it are next to each other
(`Ascending.ne_of_ge`, `Ascending.ne_of_le`).
-/

namespace Marfs.Search

variable {α : Type*} [LinearOrder α] {key : Nat → α} {n lo hi m k : Nat} {t : α}

/-- The first `n` values do not descend. -/
def Ascending (key : Nat → α) (n : Nat) : Prop := ∀ i j, i ≤ j → j < n → key i ≤ key j

/-- Everything before `lo` is too low, and everything from `hi` on is too high. -/
structure Bracket (key : Nat → α) (n : Nat) (t : α) (lo hi : Nat) : Prop where
  le : lo ≤ hi
  le_length : hi ≤ n
  below : ∀ i < lo, key i < t
  above : ∀ i, hi ≤ i → i < n → t < key i

/-- Position `m` has the least value that is not below `t`, or the least of all if there is none. -/
def IsSuccessor (key : Nat → α) (n : Nat) (t : α) (m : Nat) : Prop :=
  t ≤ key m ∧ (∀ i < n, t ≤ key i → key m ≤ key i) ∨
    (∀ i < n, key i < t) ∧ ∀ i < n, key m ≤ key i

theorem IsSuccessor.of_eq (h : key m = t) : IsSuccessor key n t m :=
  .inl ⟨h.ge, fun _ _ hle => h.le.trans hle⟩

namespace Bracket

/-- Nothing is known yet. -/
theorem whole (key : Nat → α) (n : Nat) (t : α) : Bracket key n t 0 n :=
  ⟨Nat.zero_le n, le_rfl, fun _ hi => absurd hi (Nat.not_lt_zero _),
    fun _ hi hi' => absurd hi' (Nat.not_lt.2 hi)⟩

/-- A value that is too low is the last such one that is known. -/
theorem raise (h : Bracket key n t lo hi) (hkey : Ascending key n) (hm : m < hi) (hlt : key m < t) :
    Bracket key n t (m + 1) hi := by
  refine ⟨hm, h.le_length, fun i hi' => ?_, h.above⟩
  exact (hkey i m (Nat.le_of_lt_succ hi') (hm.trans_le h.le_length)).trans_lt hlt

/-- A value that is too high is the first such one that is known. -/
theorem lower (h : Bracket key n t lo hi) (hkey : Ascending key n) (hlo : lo ≤ m) (hm : m < hi)
    (hlt : t < key m) : Bracket key n t lo m := by
  refine ⟨hlo, hm.le.trans h.le_length, h.below, fun i hi' hn => ?_⟩
  exact hlt.trans_le (hkey m i hi' hn)

/-- A value that is neither is inside. -/
theorem mem (h : Bracket key n t lo hi) (hm : m < n) (heq : key m = t) : lo ≤ m ∧ m < hi := by
  refine ⟨Nat.le_of_not_lt fun hlt => ?_, Nat.lt_of_not_le fun hle => ?_⟩
  · exact (h.below m hlt).ne heq
  · exact (h.above m hle hm).ne' heq

theorem successor (h : Bracket key n t lo lo) (hkey : Ascending key n) :
    IsSuccessor key n t (if lo = n then 0 else lo) := by
  by_cases hend : lo = n
  · rw [if_pos hend]
    refine .inr ⟨fun i hi => h.below i (hend ▸ hi), fun i hi => ?_⟩
    exact hkey 0 i (Nat.zero_le i) hi
  · rw [if_neg hend]
    have hlt : lo < n := lt_of_le_of_ne h.le_length hend
    refine .inl ⟨(h.above lo le_rfl hlt).le, fun i hi hle => ?_⟩
    exact hkey lo i (Nat.le_of_not_lt fun hlt => hle.not_gt (h.below i hlt)) hi

theorem ne (h : Bracket key n t lo lo) (hm : m < n) : key m ≠ t := by
  intro heq
  obtain ⟨hle, hlt⟩ := h.mem hm heq
  exact Nat.lt_irrefl _ (hlt.trans_le hle)

end Bracket

/-- The positions that have a value end before one that has another. -/
theorem Ascending.ne_of_ge (hkey : Ascending key n) (hm : key m = t) (hmk : m ≤ k)
    (hne : key k ≠ t) {i : Nat} (hki : k ≤ i) (hi : i < n) : key i ≠ t := by
  intro heq
  have hle : t ≤ key k := hm ▸ hkey m k hmk (hki.trans_lt hi)
  exact hne (((hkey k i hki hi).trans heq.le).antisymm hle)

/-- The positions that have a value begin behind one that has another. -/
theorem Ascending.ne_of_le (hkey : Ascending key n) (hm : key m = t) (hmn : m < n) (hkm : k ≤ m)
    (hne : key k ≠ t) {i : Nat} (hik : i ≤ k) : key i ≠ t := by
  intro heq
  have hle : key k ≤ t := hm ▸ hkey k m hkm hmn
  exact hne (hle.antisymm (heq.ge.trans (hkey i k hik (hkm.trans_lt hmn))))

end Marfs.Search
