import Mathlib.Data.List.Basic
import Mathlib.Tactic.Common

/-!
# Ring buffers

A buffer of slots read from `head` on, around its end.  What it contains is a list: a write at the slot
behind the last one appends, a step of `head` drops the first.
-/

namespace Marfs.Ring

variable {α : Type} [Inhabited α] {slots : List α} {head tail depth : Nat}

def contents (slots : List α) (head depth : Nat) : List α :=
  (List.range depth).map fun k => slots.getD ((head + k) % slots.length) default

@[simp]
theorem contents_length : (contents slots head depth).length = depth := by
  simp [contents]

theorem contents_set_of_ne {i : Nat} (x : α) (h : ∀ k < depth, (head + k) % slots.length ≠ i) :
    contents (slots.set i x) head depth = contents slots head depth := by
  refine List.map_congr_left fun k hk => ?_
  have hne : i ≠ (head + k) % slots.length := (h k (List.mem_range.1 hk)).symm
  rw [List.length_set, List.getD_eq_getElem?_getD, List.getD_eq_getElem?_getD,
    List.getElem?_set_ne hne]

theorem slot_ne {n a b : Nat} (hab : a < b) (hlt : b < a + n) : a % n ≠ b % n := by
  intro heq
  have hdvd : n ∣ b - a := Nat.dvd_of_mod_eq_zero (Nat.sub_mod_eq_zero_of_mod_eq heq.symm)
  have hle := Nat.le_of_dvd (by omega) hdvd
  omega

theorem contents_push (x : α) (h : depth < slots.length) :
    contents (slots.set ((head + depth) % slots.length) x) head (depth + 1) =
      contents slots head depth ++ [x] := by
  have hkeep : contents (slots.set ((head + depth) % slots.length) x) head depth =
      contents slots head depth :=
    contents_set_of_ne x fun k hk => slot_ne (by omega) (by omega)
  have hslot : (head + depth) % slots.length < slots.length := Nat.mod_lt _ (by omega)
  rw [contents, List.range_succ, List.map_append, ← contents, hkeep]
  simp [hslot]

theorem contents_pop (slots : List α) (head depth : Nat) : contents slots head (depth + 1) =
    slots.getD (head % slots.length) default ::
      contents slots ((head + 1) % slots.length) depth := by
  rw [contents, List.range_succ_eq_map, List.map_cons, List.map_map, Nat.add_zero]
  refine congrArg _ (List.map_congr_left fun k _ => ?_)
  dsimp only [Function.comp]
  rw [Nat.mod_add_mod, show head + (k + 1) = head + 1 + k by omega]

theorem contents_set_head (slots : List α) (head : Nat) (x : α) (h : depth < slots.length) :
    contents (slots.set (head % slots.length) x) ((head + 1) % slots.length) depth =
      contents slots ((head + 1) % slots.length) depth := by
  refine contents_set_of_ne x fun k hk => ?_
  rw [Nat.mod_add_mod]
  exact (slot_ne (by omega) (by omega)).symm

/-- Where the slots in use lie. -/
structure Layout (capacity head tail depth : Nat) : Prop where
  head_lt : head < capacity
  depth_le : depth ≤ capacity
  tail_eq : tail = (head + depth) % capacity

namespace Layout

variable {capacity : Nat}

theorem pos (h : Layout capacity head tail depth) : 0 < capacity := Nat.zero_lt_of_lt h.head_lt

theorem push (h : Layout capacity head tail depth) (hlt : depth < capacity) :
    Layout capacity head ((tail + 1) % capacity) (depth + 1) := by
  refine ⟨h.head_lt, hlt, ?_⟩
  rw [h.tail_eq, Nat.mod_add_mod, Nat.add_assoc]

theorem pop (h : Layout capacity head tail (depth + 1)) :
    Layout capacity ((head + 1) % capacity) tail depth := by
  refine ⟨Nat.mod_lt _ h.pos, Nat.le_of_succ_le h.depth_le, ?_⟩
  rw [h.tail_eq, Nat.mod_add_mod, show head + (depth + 1) = head + 1 + depth by omega]

end Layout

end Marfs.Ring
