import Mathlib.Data.List.Count
import Mathlib.Data.List.Perm.Basic

/-!
# Resources that are destroyed once

Resources are numbered in the order they are made, and every destruction is noted, a second one of the same
resource as well.  A ledger is owned by a list of resources if each one that was made was either destroyed
once and is not in the list, or was never destroyed and is in it once.
-/

namespace Marfs.Machine

/-- The number of resources that were made, and those that were destroyed, the last one first. -/
structure Ledger where
  made : Nat
  destroyed : List Nat
  deriving DecidableEq, Repr

namespace Ledger

def fresh : Ledger := { made := 0, destroyed := [] }

def make (ledger : Ledger) : Ledger := { ledger with made := ledger.made + 1 }

def destroy (ledger : Ledger) (id : Nat) : Ledger := { ledger with destroyed := id :: ledger.destroyed }

def Owns (ledger : Ledger) (live : List Nat) : Prop :=
  ∀ id, ledger.destroyed.count id + live.count id = if id < ledger.made then 1 else 0

variable {ledger : Ledger} {live live' : List Nat} {id : Nat}

theorem owns_fresh : fresh.Owns [] := fun _ => rfl

theorem Owns.make (h : ledger.Owns live) : ledger.make.Owns (ledger.made :: live) := by
  intro id
  have hid := h id
  rw [List.count_cons]
  show ledger.destroyed.count id + _ = if id < ledger.made + 1 then 1 else 0
  by_cases hnew : ledger.made = id
  · rw [if_neg (by omega)] at hid
    rw [if_pos (beq_iff_eq.2 hnew), if_pos (by omega)]
    omega
  · rw [if_neg (by simpa using hnew)]
    by_cases hold : id < ledger.made
    · rw [if_pos hold] at hid
      rw [if_pos (by omega)]
      omega
    · rw [if_neg hold] at hid
      rw [if_neg (by omega)]
      omega

theorem owns_destroy : (ledger.destroy id).Owns live ↔ ledger.Owns (id :: live) := by
  apply forall_congr'
  intro other
  show (id :: ledger.destroyed).count other + live.count other = (if other < ledger.made then 1 else 0) ↔ _
  rw [List.count_cons, List.count_cons, Nat.add_assoc, Nat.add_comm (live.count other)]

theorem Owns.perm (h : ledger.Owns live) (hperm : live.Perm live') : ledger.Owns live' := by
  intro id
  rw [← hperm.count_eq id]
  exact h id

theorem Owns.not_mem_destroyed (h : ledger.Owns live) (hid : id ∈ live) : id ∉ ledger.destroyed := by
  intro hdestroyed
  have hcnt := h id
  have hlive := List.count_pos_iff.2 hid
  have hdead := List.count_pos_iff.2 hdestroyed
  split at hcnt
  · omega
  · omega

theorem Owns.count_destroyed (h : ledger.Owns []) (hid : id < ledger.made) :
    ledger.destroyed.count id = 1 := by
  have hcnt := h id
  rwa [if_pos hid, List.count_nil, Nat.add_zero] at hcnt

theorem Owns.nodup_destroyed (h : ledger.Owns live) : ledger.destroyed.Nodup := by
  rw [List.nodup_iff_count]
  intro id
  have hcnt := h id
  split at hcnt
  · omega
  · omega

/-- No more than one resource can be left at a time, whatever the list. -/
theorem Owns.count_eq (h : ledger.Owns live) (h' : ledger.Owns live') (id : Nat) :
    live.count id = live'.count id := by
  have hcnt := h id
  rw [← h' id] at hcnt
  omega

end Ledger

end Marfs.Machine
