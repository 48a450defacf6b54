import Mathlib.Data.List.Basic

/-!
# Paths as strings

A path is a string over any alphabet with a separator.  Its components are the nonempty parts between
separators, so repeated separators and separators at the ends do not count.  A scanner reads the first
component of a text and goes on behind the separators that follow it.
-/

namespace Marfs.Path

open List

variable {α : Type} [DecidableEq α]

/-! ## Definitions -/

def components (sep : α) (path : List α) : List (List α) :=
  (path.splitOnP (· = sep)).filter (· ≠ [])

def firstElem (sep : α) (path : List α) : List α := path.takeWhile (· ≠ sep)

/-- The text from the first separator on. -/
def skipElem (sep : α) (path : List α) : List α := path.dropWhile (· ≠ sep)

/-- The text behind leading separators. -/
def skipSep (sep : α) (path : List α) : List α := path.dropWhile (· = sep)

def nextElem (sep : α) (path : List α) : List α := skipSep sep (skipElem sep path)

/-! ## Components -/

variable {sep : α} {path : List α}

@[simp] theorem components_nil : components sep [] = [] := by
  simp [components]

theorem components_append_sep (sep : α) (front path : List α) :
    components sep (front ++ sep :: path) = components sep front ++ components sep path := by
  rw [components, splitOnP_append_cons _ _ (by simp), filter_append, components, components]

@[simp] theorem components_sep (path : List α) : components sep (sep :: path) = components sep path := by
  have h := components_append_sep sep [] path
  rwa [nil_append, components_nil, nil_append] at h

@[simp] theorem components_skipSep (path : List α) :
    components sep (skipSep sep path) = components sep path := by
  induction path with
  | nil => rfl
  | cons c path ih =>
    by_cases hc : c = sep
    · subst hc
      rw [components_sep, ← ih, skipSep, dropWhile_cons_of_pos (by simp), skipSep]
    · rw [skipSep, dropWhile_cons_of_neg (by simpa using hc)]

theorem components_elem {name : List α} (hne : name ≠ []) (hname : sep ∉ name) :
    components sep name = [name] := by
  have hnot : ∀ c ∈ name, decide (c = sep) = false := fun c hc =>
    decide_eq_false fun heq => hname (heq ▸ hc)
  rw [components, splitOnP_eq_singleton hnot, filter_cons_of_pos (by simpa using hne)]
  rfl

/-! ## The first component -/

theorem sep_notMem_firstElem (path : List α) : sep ∉ firstElem sep path := fun hmem => by
  have hall := List.all_eq_true.1 (all_takeWhile (l := path)) sep hmem
  simp at hall

theorem firstElem_append (sep : α) (path : List α) : firstElem sep path ++ skipElem sep path = path :=
  takeWhile_append_dropWhile

theorem firstElem_ne_nil (hhead : path.head? ≠ some sep) (hne : path ≠ []) : firstElem sep path ≠ [] := by
  cases path with
  | nil => exact absurd rfl hne
  | cons c path =>
    have hc : c ≠ sep := fun heq => hhead (congrArg some heq)
    rw [firstElem, takeWhile_cons_of_pos (by simpa using hc)]
    exact cons_ne_nil _ _

/-- Behind a component is nothing or a separator. -/
theorem skipElem_cases (sep : α) (path : List α) :
    skipElem sep path = [] ∨ ∃ rest, skipElem sep path = sep :: rest := by
  cases h : skipElem sep path with
  | nil => exact Or.inl rfl
  | cons c rest =>
    have hc := List.head?_dropWhile_not (fun d => decide (d ≠ sep)) path
    rw [show path.dropWhile (fun d => decide (d ≠ sep)) = c :: rest from h] at hc
    have heq : c = sep := by simpa using hc
    exact Or.inr ⟨rest, by rw [heq]⟩

theorem skipSep_head (path : List α) : (skipSep sep path).head? ≠ some sep := fun h => by
  have hc := List.head?_dropWhile_not (fun d => decide (d = sep)) path
  rw [show path.dropWhile (fun d => decide (d = sep)) = skipSep sep path from rfl, h] at hc
  simp at hc

theorem skipSep_of_head (hhead : path.head? ≠ some sep) : skipSep sep path = path := by
  cases path with
  | nil => rfl
  | cons c path =>
    have hc : c ≠ sep := fun heq => hhead (congrArg some heq)
    exact dropWhile_cons_of_neg (by simpa using hc)

/-- A text ends before a separator, or at the end. -/
theorem components_append {front rest : List α} (h : rest = [] ∨ ∃ path, rest = sep :: path) :
    components sep (front ++ rest) = components sep front ++ components sep rest := by
  rcases h with rfl | ⟨path, rfl⟩
  · rw [List.append_nil, components_nil, List.append_nil]
  · rw [components_append_sep, components_sep]

theorem components_eq_cons (hhead : path.head? ≠ some sep) (hne : path ≠ []) :
    components sep path = firstElem sep path :: components sep (nextElem sep path) := by
  have helem := components_elem (firstElem_ne_nil hhead hne) (sep_notMem_firstElem path)
  calc components sep path
      = components sep (firstElem sep path ++ skipElem sep path) := by rw [firstElem_append]
    _ = components sep (firstElem sep path) ++ components sep (skipElem sep path) :=
        components_append (skipElem_cases sep path)
    _ = firstElem sep path :: components sep (nextElem sep path) := by
        rw [helem, nextElem, components_skipSep]
        rfl

theorem components_ne_nil (hhead : path.head? ≠ some sep) (hne : path ≠ []) : components sep path ≠ [] := by
  rw [components_eq_cons hhead hne]
  exact cons_ne_nil _ _

/-! ## Going on -/

theorem nextElem_head (path : List α) : (nextElem sep path).head? ≠ some sep :=
  skipSep_head _

theorem nextElem_suffix (path : List α) : nextElem sep path <:+ path :=
  (dropWhile_suffix _).trans (dropWhile_suffix _)

theorem nextElem_length_lt (hhead : path.head? ≠ some sep) (hne : path ≠ []) :
    (nextElem sep path).length < path.length := by
  have helem := length_pos_of_ne_nil (firstElem_ne_nil hhead hne)
  have hnext : (nextElem sep path).length ≤ (skipElem sep path).length :=
    (dropWhile_suffix _).length_le
  have hlen := congrArg List.length (firstElem_append sep path)
  rw [length_append] at hlen
  omega

/-- A text gets shorter also where it begins with a separator. -/
theorem nextElem_length_lt_of_ne_nil (sep : α) {path : List α} (hne : path ≠ []) :
    (nextElem sep path).length < path.length := by
  cases path with
  | nil => exact absurd rfl hne
  | cons c path =>
    by_cases hc : c = sep
    · have hnext : nextElem sep (c :: path) = skipSep sep path := by
        rw [nextElem, skipElem, dropWhile_cons_of_neg (by simpa using hc), skipSep,
          dropWhile_cons_of_pos (by simpa using hc), skipSep]
      rw [hnext]
      exact Nat.lt_succ_of_le (dropWhile_suffix _).length_le
    · exact nextElem_length_lt (fun heq => hc (Option.some.inj heq)) hne

/-! ## Repeated separators -/

/-- Two texts that begin with the same components, however often the separators between them are
repeated. -/
structure Same (sep : α) (path path' : List α) : Prop where
  components : components sep path = components sep path'
  head : path.head? ≠ some sep
  head' : path'.head? ≠ some sep

section Same

variable {path' : List α}

theorem Same.eq_nil (h : Same sep path path') : path = [] ↔ path' = [] := by
  constructor
  · rintro rfl
    by_contra hne
    exact components_ne_nil h.head' hne (h.components ▸ components_nil)
  · rintro rfl
    by_contra hne
    exact components_ne_nil h.head hne (h.components ▸ components_nil)

theorem Same.cons (h : Same sep path path') (hne : path ≠ []) :
    firstElem sep path = firstElem sep path' ∧ Same sep (nextElem sep path) (nextElem sep path') := by
  have hne' : path' ≠ [] := fun hnil => hne (h.eq_nil.2 hnil)
  have hcomps := h.components
  rw [components_eq_cons h.head hne, components_eq_cons h.head' hne'] at hcomps
  obtain ⟨hfst, hnext⟩ := List.cons.inj hcomps
  exact ⟨hfst, hnext, nextElem_head path, nextElem_head path'⟩

end Same

end Marfs.Path
