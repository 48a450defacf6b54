import Mathlib.Data.List.Induction
import Mathlib.Data.List.Nodup

/-!
# Dispatch by key

The items of a stream are sent to groups, one item after the other: an item joins the group of its key,
or begins a new group behind the others.  Every key of the stream has one group (`mem_keys`,
`keys_nodup`), and a group holds the items of its key in the order of the stream (`dispatchAll_get`).
-/

namespace Marfs.Search

open List

variable {κ β : Type*} [DecidableEq κ]

def dispatch (key : κ) (item : β) : List (κ × List β) → List (κ × List β)
  | [] => [(key, [item])]
  | (key', items) :: rest =>
    if key' = key then (key', items ++ [item]) :: rest else (key', items) :: dispatch key item rest

def dispatchAll (stream : List (κ × β)) : List (κ × List β) :=
  stream.foldl (fun groups sent => dispatch sent.1 sent.2 groups) []

def itemsOf (key : κ) (stream : List (κ × β)) : List β :=
  (stream.filter fun sent => sent.1 = key).map Prod.snd

section Dispatch

variable {key : κ} {item : β} {groups : List (κ × List β)} {stream : List (κ × β)}

@[simp] theorem dispatchAll_concat (stream : List (κ × β)) (sent : κ × β) :
    dispatchAll (stream ++ [sent]) = dispatch sent.1 sent.2 (dispatchAll stream) := by
  rw [dispatchAll, foldl_append]
  rfl

theorem itemsOf_concat (key : κ) (stream : List (κ × β)) (sent : κ × β) :
    itemsOf key (stream ++ [sent]) = itemsOf key stream ++ if sent.1 = key then [sent.2] else [] := by
  rw [itemsOf, filter_append, map_append, ← itemsOf]
  by_cases hkey : sent.1 = key
  · simp [hkey]
  · simp [hkey]

theorem keys_dispatch (key : κ) (item : β) (groups : List (κ × List β)) :
    (dispatch key item groups).map Prod.fst =
      if key ∈ groups.map Prod.fst then groups.map Prod.fst else groups.map Prod.fst ++ [key] := by
  induction groups with
  | nil => rfl
  | cons group rest ih =>
    obtain ⟨key', items⟩ := group
    by_cases hkey : key' = key
    · subst hkey
      simp [dispatch]
    · have hne : ¬ key = key' := fun h => hkey h.symm
      simp only [dispatch, if_neg hkey, map_cons, ih, mem_cons, hne, false_or]
      by_cases hmem : key ∈ rest.map Prod.fst
      · rw [if_pos hmem, if_pos hmem]
      · rw [if_neg hmem, if_neg hmem, cons_append]

theorem dispatch_found {n : Nat} {items : List β} (hnodup : (groups.map Prod.fst).Nodup)
    (hget : groups[n]? = some (key, items)) :
    dispatch key item groups = groups.set n (key, items ++ [item]) := by
  induction groups generalizing n with
  | nil => cases hget
  | cons group rest ih =>
    obtain ⟨key', items'⟩ := group
    rw [map_cons, nodup_cons] at hnodup
    cases n with
    | zero =>
      cases hget
      rw [dispatch, if_pos rfl, set_cons_zero]
    | succ n =>
      rw [List.getElem?_cons_succ] at hget
      have hne : key' ≠ key := by
        intro heq
        apply hnodup.1
        rw [heq]
        exact List.mem_map.2 ⟨_, mem_of_getElem? hget, rfl⟩
      rw [dispatch, if_neg hne, ih hnodup.2 hget, set_cons_succ]

theorem dispatch_new (hkey : key ∉ groups.map Prod.fst) :
    dispatch key item groups = groups ++ [(key, [item])] := by
  induction groups with
  | nil => rfl
  | cons group rest ih =>
    rw [map_cons, mem_cons, not_or] at hkey
    rw [dispatch, if_neg (Ne.symm hkey.1), ih hkey.2, cons_append]

theorem getElem?_dispatch_found {pos : Nat} {items : List β} (hnodup : (groups.map Prod.fst).Nodup)
    (hget : groups[pos]? = some (key, items)) (item : β) (n : Nat) :
    (dispatch key item groups)[n]? = if n = pos then some (key, items ++ [item]) else groups[n]? := by
  rw [dispatch_found hnodup hget]
  by_cases hn : n = pos
  · rw [if_pos hn, hn, List.getElem?_set_self (List.getElem?_eq_some_iff.1 hget).1]
  · rw [if_neg hn, List.getElem?_set_ne (Ne.symm hn)]

theorem getElem?_dispatch_new (hkey : key ∉ groups.map Prod.fst) (item : β) (n : Nat) :
    (dispatch key item groups)[n]? = if n = groups.length then some (key, [item]) else groups[n]? := by
  rw [dispatch_new hkey]
  by_cases hn : n = groups.length
  · rw [if_pos hn, hn, List.getElem?_concat_length]
  · rw [if_neg hn]
    rcases Nat.lt_or_gt_of_ne hn with hlt | hgt
    · exact List.getElem?_append_left hlt
    · rw [List.getElem?_eq_none (Nat.le_of_lt hgt), List.getElem?_eq_none]
      rw [length_append, length_singleton]
      exact hgt

theorem keys_dispatch_nodup (hnodup : (groups.map Prod.fst).Nodup) :
    ((dispatch key item groups).map Prod.fst).Nodup := by
  rw [keys_dispatch]
  by_cases hmem : key ∈ groups.map Prod.fst
  · rwa [if_pos hmem]
  · rw [if_neg hmem]
    apply List.nodup_append.2
    refine ⟨hnodup, nodup_singleton key, ?_⟩
    intro a ha b hb heq
    rw [List.mem_singleton.1 hb] at heq
    exact hmem (heq ▸ ha)

theorem keys_nodup (stream : List (κ × β)) : ((dispatchAll stream).map Prod.fst).Nodup := by
  induction stream using reverseRecOn with
  | nil => exact nodup_nil
  | append_singleton stream sent ih =>
    rw [dispatchAll_concat]
    exact keys_dispatch_nodup ih

theorem mem_keys : key ∈ (dispatchAll stream).map Prod.fst ↔ key ∈ stream.map Prod.fst := by
  induction stream using reverseRecOn with
  | nil => rfl
  | append_singleton stream sent ih =>
    rw [dispatchAll_concat, keys_dispatch, map_append, mem_append, ← ih]
    by_cases hmem : sent.1 ∈ (dispatchAll stream).map Prod.fst
    · rw [if_pos hmem]
      constructor
      · exact Or.inl
      · rintro (h | h)
        · exact h
        · rw [map_singleton, mem_singleton] at h
          rwa [h]
    · rw [if_neg hmem, mem_append]
      rfl

theorem mem_dispatch {group : κ × List β} (hnodup : (groups.map Prod.fst).Nodup)
    (h : group ∈ dispatch key item groups) :
    (group.1 ≠ key ∧ group ∈ groups) ∨
      (∃ items, (key, items) ∈ groups ∧ group = (key, items ++ [item])) ∨
      key ∉ groups.map Prod.fst ∧ group = (key, [item]) := by
  induction groups with
  | nil => exact Or.inr (Or.inr ⟨not_mem_nil, List.mem_singleton.1 h⟩)
  | cons front rest ih =>
    obtain ⟨key', items⟩ := front
    rw [map_cons, nodup_cons] at hnodup
    by_cases hkey : key' = key
    · subst hkey
      rw [dispatch, if_pos rfl, mem_cons] at h
      rcases h with rfl | h
      · exact Or.inr (Or.inl ⟨items, mem_cons_self, rfl⟩)
      · refine Or.inl ⟨fun heq => hnodup.1 ?_, mem_cons_of_mem _ h⟩
        exact List.mem_map.2 ⟨group, h, heq⟩
    · rw [dispatch, if_neg hkey, mem_cons] at h
      rcases h with rfl | h
      · exact Or.inl ⟨hkey, mem_cons_self⟩
      · rcases ih hnodup.2 h with ⟨hne, hmem⟩ | ⟨items', hmem, heq⟩ | ⟨hnew, heq⟩
        · exact Or.inl ⟨hne, mem_cons_of_mem _ hmem⟩
        · exact Or.inr (Or.inl ⟨items', mem_cons_of_mem _ hmem, heq⟩)
        · refine Or.inr (Or.inr ⟨?_, heq⟩)
          rw [map_cons, mem_cons, not_or]
          exact ⟨fun heq => hkey heq.symm, hnew⟩

theorem itemsOf_of_notMem (h : key ∉ stream.map Prod.fst) : itemsOf key stream = [] := by
  rw [itemsOf, map_eq_nil_iff, filter_eq_nil_iff]
  intro sent hsent
  rw [decide_eq_true_iff]
  exact fun heq => h (List.mem_map.2 ⟨sent, hsent, heq⟩)

theorem items_eq {items : List β} (h : (key, items) ∈ dispatchAll stream) : items = itemsOf key stream := by
  induction stream using reverseRecOn generalizing key items with
  | nil => cases h
  | append_singleton stream sent ih =>
    rw [dispatchAll_concat] at h
    rw [itemsOf_concat]
    rcases mem_dispatch (keys_nodup stream) h with ⟨hne, hmem⟩ | ⟨items', hmem, heq⟩ | ⟨hnew, heq⟩
    · rw [if_neg (Ne.symm hne), List.append_nil]
      exact ih hmem
    · obtain ⟨rfl, rfl⟩ := Prod.mk.inj heq
      rw [if_pos rfl, ← ih hmem]
    · obtain ⟨rfl, rfl⟩ := Prod.mk.inj heq
      rw [if_pos rfl, itemsOf_of_notMem (fun hmem => hnew (mem_keys.2 hmem)), nil_append]

end Dispatch

end Marfs.Search
