import Marfs.Path.Components
import Mathlib.Logic.Relation

/-!
# Fronts of a path

A front of a path ends behind separators.  What a scanner makes of a front does not depend on what follows
it, so the rest of a path can be replaced.
-/

namespace Marfs.Path

open List

variable {α : Type} {sep : α} {front front' path rest : List α}

/-- A text at the end of which an element begins. -/
def Front (sep : α) (front : List α) : Prop := front = [] ∨ front.getLast? = some sep

theorem Front.append (h : Front sep front) (h' : Front sep front') : Front sep (front ++ front') := by
  rcases h' with rfl | h'
  · rwa [List.append_nil]
  · have hne : front' ≠ [] := by
      rintro rfl
      cases h'
    exact Or.inr (by rw [List.getLast?_append_of_ne_nil _ hne, h'])

theorem Front.cases (h : Front sep front) : front = [] ∨ ∃ text, front = text ++ [sep] := by
  rcases h with rfl | h
  · exact Or.inl rfl
  · obtain ⟨text, rfl⟩ := List.getLast?_eq_some_iff.1 h
    exact Or.inr ⟨text, rfl⟩

variable [DecidableEq α]

theorem Front.components_append (h : Front sep front) (rest : List α) :
    components sep (front ++ rest) = components sep front ++ components sep rest := by
  rcases h.cases with rfl | ⟨text, rfl⟩
  · rw [components_nil]
    rfl
  · rw [append_assoc, singleton_append, components_append_sep, components_append_sep, components_nil,
      List.append_nil]

theorem skipSep_append (hrest : rest.head? ≠ some sep) (front : List α) :
    skipSep sep (front ++ rest) = skipSep sep front ++ rest := by
  induction front with
  | nil => exact skipSep_of_head hrest
  | cons c front ih =>
    by_cases hc : c = sep
    · rw [cons_append, skipSep, dropWhile_cons_of_pos (by simpa using hc), skipSep,
        dropWhile_cons_of_pos (by simpa using hc)]
      exact ih
    · rw [cons_append, skipSep, dropWhile_cons_of_neg (by simpa using hc), skipSep,
        dropWhile_cons_of_neg (by simpa using hc), cons_append]

theorem exists_front (hne : nextElem sep path ≠ []) :
    ∃ front, path = front ++ nextElem sep path ∧ front.getLast? = some sep ∧
      ∀ rest, firstElem sep (front ++ rest) = firstElem sep path ∧
        (rest.head? ≠ some sep → nextElem sep (front ++ rest) = rest) := by
  rcases skipElem_cases sep path with hnil | ⟨tail, htail⟩
  · rw [nextElem, hnil] at hne
    exact absurd rfl hne
  have hseps : ∀ c ∈ (skipElem sep path).takeWhile (· = sep), c = sep := by
    intro c hc
    simpa using List.all_eq_true.1 all_takeWhile c hc
  have hcons : (skipElem sep path).takeWhile (· = sep) = sep :: tail.takeWhile (· = sep) := by
    rw [htail, takeWhile_cons_of_pos (by simp)]
  refine ⟨firstElem sep path ++ (skipElem sep path).takeWhile (· = sep), ?_, ?_, ?_⟩
  · rw [append_assoc, nextElem, skipSep, takeWhile_append_dropWhile, firstElem_append]
  · have hnil : (skipElem sep path).takeWhile (· = sep) ≠ [] := by
      rw [hcons]
      exact cons_ne_nil _ _
    rw [List.getLast?_append_of_ne_nil _ hnil, List.getLast?_eq_some_getLast hnil,
      hseps _ (getLast_mem hnil)]
  · intro rest
    have hfst : ∀ c ∈ firstElem sep path, decide (c ≠ sep) = true := by
      intro c hc
      exact decide_eq_true fun heq => sep_notMem_firstElem path (heq ▸ hc)
    constructor
    · rw [firstElem, append_assoc, takeWhile_append_of_pos hfst, hcons, cons_append,
        takeWhile_cons_of_neg (by simp), List.append_nil]
    · intro hrest
      rw [nextElem, skipElem, append_assoc, dropWhile_append_of_pos hfst, hcons,
        cons_append, dropWhile_cons_of_neg (by simp), ← cons_append, ← hcons, skipSep,
        dropWhile_append_of_pos fun c hc => decide_eq_true (hseps c hc)]
      exact skipSep_of_head hrest

theorem take_firstElem (before path : List α) :
    (before ++ path).take ((before ++ path).length - (skipElem sep path).length) =
      before ++ firstElem sep path := by
  have happend : before ++ path = (before ++ firstElem sep path) ++ skipElem sep path := by
    rw [append_assoc, firstElem_append]
  rw [happend, length_append, Nat.add_sub_cancel, take_left]

/-! ## Names -/

def named (sep : α) (dot : List α) (path : List α) : List (List α) :=
  (components sep path).filter (· ≠ dot)

@[simp] theorem named_nil (dot : List α) : named sep dot [] = [] := by
  rw [named, components_nil]
  rfl

theorem Front.named_append (h : Front sep front) (dot rest : List α) :
    named sep dot (front ++ rest) = named sep dot front ++ named sep dot rest := by
  rw [named, h.components_append, filter_append]
  rfl

variable {dot : List α}

theorem named_cons (hhead : path.head? ≠ some sep) (hne : path ≠ []) :
    named sep dot path =
      if firstElem sep path = dot then named sep dot (nextElem sep path)
      else firstElem sep path :: named sep dot (nextElem sep path) := by
  rw [named, components_eq_cons hhead hne, filter_cons]
  by_cases hdot : firstElem sep path = dot
  · rw [if_neg (by simpa using hdot), if_pos hdot]
    rfl
  · rw [if_pos (by simpa using hdot), if_neg hdot]
    rfl

def Dots (sep : α) (dot : List α) : List α → List α → Prop :=
  Relation.ReflTransGen fun path rest => firstElem sep path = dot ∧ nextElem sep path = rest

theorem Dots.head (h : Dots sep dot path rest) (hhead : path.head? ≠ some sep) : rest.head? ≠ some sep := by
  induction h with
  | refl => exact hhead
  | tail _ hlast _ => exact hlast.2 ▸ nextElem_head _

end Marfs.Path
