import Mathlib.Data.List.DropRight

/-!
# Paths of an operating system

A path is a string over any alphabet with a separator and a dot.  Its components are read from the front:
a root, a leading `.`, and then the parts between separators, of which empty ones and further `.` do not
count.  Two paths are the same when their components are.
-/

namespace Marfs.OsPath

open List

inductive Component (α : Type) where
  | rootDir
  | curDir
  | parentDir
  | normal (name : List α)
  deriving DecidableEq, Repr

/-- What is left of a path: the root or `.` at its front, when it was not read yet, and the parts. -/
structure Components (α : Type) where
  front : Option (Component α)
  rest : List (List α)

section Paths

variable {α : Type} [DecidableEq α] (sep dot : α)

def partComponent (part : List α) : Option (Component α) :=
  if part = [] ∨ part = [dot] then none
  else if part = [dot, dot] then some .parentDir
  else some (.normal part)

def trimLeft (parts : List (List α)) : List (List α) :=
  parts.dropWhile fun part => (partComponent dot part).isNone

def trimRight (parts : List (List α)) : List (List α) :=
  parts.rdropWhile fun part => (partComponent dot part).isNone

def body (text : List α) : List (Component α) := (text.splitOn sep).filterMap (partComponent dot)

def hasRoot (path : List α) : Bool := path.head? == some sep

def components : List α → Components α
  | [] => ⟨none, [[]]⟩
  | c :: path =>
    if c = sep then ⟨some .rootDir, path.splitOn sep⟩
    else if c = dot ∧ (path = [] ∨ path.head? = some sep) then ⟨some .curDir, path.splitOn sep⟩
    else ⟨none, (c :: path).splitOn sep⟩

namespace Components

def next (it : Components α) : Option (Component α × Components α) :=
  match it.front with
  | some front => some (front, ⟨none, it.rest⟩)
  | none =>
    match trimLeft dot it.rest with
    | [] => none
    | part :: rest => (partComponent dot part).map fun comp => (comp, ⟨none, rest⟩)

def toList (it : Components α) : List (Component α) :=
  it.front.toList ++ it.rest.filterMap (partComponent dot)

def asPath (it : Components α) : List α :=
  match it.front with
  | none => [sep].intercalate (trimRight dot (trimLeft dot it.rest))
  | some .curDir => dot :: [sep].intercalate (trimRight dot it.rest)
  | some _ => sep :: [sep].intercalate (trimRight dot it.rest)

def after (it : Components α) : List (Component α) → Option (Components α)
  | [] => some it
  | comp :: comps =>
    match it.next dot with
    | none => none
    | some (comp', it) => if comp' = comp then it.after comps else none

end Components

def elements (path : List α) : List (Component α) := (components sep dot path).toList dot

def stripPrefix (path base : List α) : Option (List α) :=
  ((components sep dot path).after dot (elements sep dot base)).map (·.asPath sep dot)

def startsWith (path base : List α) : Bool :=
  ((components sep dot path).after dot (elements sep dot base)).isSome

def locate (place : List (List α)) (comps : List (Component α)) : List (List α) :=
  comps.foldl (fun place comp =>
    match comp with
    | .rootDir => []
    | .curDir => place
    | .parentDir => place.dropLast
    | .normal name => place ++ [name]) place

def push (path more : List α) : List α :=
  if hasRoot sep more then more
  else if path = [] ∨ path.getLast? = some sep then path ++ more
  else path ++ sep :: more

/-! ## Parts -/

variable {sep dot} {path text more base : List α} {parts : List (List α)}

variable {part : List α}

theorem partComponent_eq_none : partComponent dot part = none ↔ part = [] ∨ part = [dot] := by
  unfold partComponent
  split_ifs with h h' <;> simp [h]

theorem filterMap_trimLeft (parts : List (List α)) :
    (trimLeft dot parts).filterMap (partComponent dot) = parts.filterMap (partComponent dot) := by
  induction parts with
  | nil => rfl
  | cons part parts ih =>
    unfold trimLeft at ih ⊢
    cases hpart : partComponent dot part with
    | none => rw [dropWhile_cons_of_pos (by simp [hpart]), ih, filterMap_cons_none hpart]
    | some comp => rw [dropWhile_cons_of_neg (by simp [hpart])]

theorem filterMap_trimRight (parts : List (List α)) :
    (trimRight dot parts).filterMap (partComponent dot) = parts.filterMap (partComponent dot) := by
  induction parts using reverseRecOn with
  | nil => rfl
  | append_singleton parts part ih =>
    unfold trimRight at ih ⊢
    cases hpart : partComponent dot part with
    | none =>
      rw [rdropWhile_concat_pos _ _ _ (by simp [hpart]), ih, filterMap_append,
        filterMap_cons_none hpart, filterMap_nil, List.append_nil]
    | some comp => rw [rdropWhile_concat_neg _ _ _ (by simp [hpart])]

theorem mem_trimLeft (h : part ∈ trimLeft dot parts) : part ∈ parts :=
  (dropWhile_suffix _).subset h

theorem mem_trimRight (h : part ∈ trimRight dot parts) : part ∈ parts :=
  (List.rdropWhile_prefix _ _).subset h

theorem trimLeft_head (h : (trimLeft dot parts).head? = some part) : partComponent dot part ≠ none := by
  have hnot := List.head?_dropWhile_not (fun part => (partComponent dot part).isNone) parts
  unfold trimLeft at h
  rw [h] at hnot
  intro hnone
  simp [hnone] at hnot

theorem trimRight_head (hhead : parts.head? = some part) (hpart : partComponent dot part ≠ none) :
    (trimRight dot parts).head? = some part := by
  cases parts with
  | nil => cases hhead
  | cons part' parts =>
    obtain rfl := Option.some.inj hhead
    have hne : trimRight dot (part' :: parts) ≠ [] := by
      intro hnil
      have hall :=
        (rdropWhile_eq_nil_iff (p := fun part => (partComponent dot part).isNone)).1 hnil part'
        (mem_cons_self ..)
      exact hpart (Option.isNone_iff_eq_none.1 hall)
    obtain ⟨rest, hrest⟩ :=
      List.rdropWhile_prefix (p := fun part => (partComponent dot part).isNone) (part' :: parts)
    unfold trimRight at hne ⊢
    cases htrim : rdropWhile (fun part => (partComponent dot part).isNone) (part' :: parts) with
    | nil => exact absurd htrim hne
    | cons first more =>
      rw [htrim, cons_append] at hrest
      rw [List.head?_cons, (List.cons.inj hrest).1]

theorem filterMap_splitOn_intercalate (hparts : ∀ part ∈ parts, sep ∉ part) :
    (([sep].intercalate parts).splitOn sep).filterMap (partComponent dot) =
      parts.filterMap (partComponent dot) := by
  cases parts with
  | nil => rfl
  | cons part parts => rw [splitOn_intercalate sep hparts (cons_ne_nil _ _)]

theorem notMem_of_mem_splitOn (h : part ∈ text.splitOn sep) : sep ∉ part := by
  induction text generalizing part with
  | nil =>
    obtain rfl := List.mem_singleton.1 h
    exact not_mem_nil
  | cons c text ih =>
    rw [splitOn_cons_eq_if_modifyHead] at h
    by_cases hc : c = sep
    · rw [if_pos (beq_iff_eq.2 hc)] at h
      rcases List.mem_cons.1 h with rfl | h
      · exact not_mem_nil
      · exact ih h
    · rw [if_neg (by simpa using hc)] at h
      cases hspl : text.splitOn sep with
      | nil => exact absurd hspl (splitOn_ne_nil _ _)
      | cons first parts =>
        rw [hspl] at h ih
        rcases List.mem_cons.1 h with rfl | h
        · rintro (_ | ⟨_, hmem⟩)
          · exact hc rfl
          · exact ih (mem_cons_self ..) hmem
        · exact ih (mem_cons_of_mem _ h)

/-! ## What is left of a path -/

namespace Components

/-- What can be left of a path. -/
structure Valid (sep : α) (it : Components α) : Prop where
  front : it.front = none ∨ it.front = some .rootDir ∨ it.front = some .curDir ∧ it.rest.head? = some []
  separated : ∀ part ∈ it.rest, sep ∉ part

variable {it it' : Components α} {comp : Component α} {comps rest : List (Component α)}

theorem next_none (h : it.next dot = none) : it.toList dot = [] := by
  unfold next at h
  split at h
  · cases h
  · next hfront =>
    split at h
    · next htrim =>
      rw [toList, hfront, ← filterMap_trimLeft, htrim]
      rfl
    · next part parts htrim =>
      have hhead : (trimLeft dot it.rest).head? = some part := by
        rw [htrim]
        rfl
      exact absurd (Option.map_eq_none_iff.1 h) (trimLeft_head hhead)

theorem next_some (h : it.next dot = some (comp, it')) : it.toList dot = comp :: it'.toList dot := by
  unfold next at h
  split at h
  · next front hfront =>
    obtain ⟨rfl, rfl⟩ := Prod.mk.inj (Option.some.inj h)
    rw [toList, hfront]
    rfl
  · next hfront =>
    split at h
    · cases h
    · next part parts htrim =>
      obtain ⟨comp', hcomp, heq⟩ := Option.map_eq_some_iff.1 h
      obtain ⟨rfl, rfl⟩ := Prod.mk.inj heq
      rw [toList, hfront, ← filterMap_trimLeft, htrim, filterMap_cons_some hcomp]
      rfl

theorem Valid.next (hvalid : it.Valid sep) (h : it.next dot = some (comp, it')) : it'.Valid sep := by
  unfold Components.next at h
  split at h
  · obtain ⟨rfl, rfl⟩ := Prod.mk.inj (Option.some.inj h)
    exact ⟨Or.inl rfl, hvalid.separated⟩
  · split at h
    · cases h
    · next part parts htrim =>
      obtain ⟨comp', hcomp, heq⟩ := Option.map_eq_some_iff.1 h
      obtain ⟨rfl, rfl⟩ := Prod.mk.inj heq
      refine ⟨Or.inl rfl, fun part' hpart' => ?_⟩
      have hmem : part' ∈ trimLeft dot it.rest := by
        rw [htrim]
        exact mem_cons_of_mem _ hpart'
      exact hvalid.separated part' (mem_trimLeft hmem)

theorem after_some (h : it.after dot comps = some it') : it.toList dot = comps ++ it'.toList dot := by
  induction comps generalizing it with
  | nil =>
    obtain rfl := Option.some.inj h
    rfl
  | cons comp comps ih =>
    unfold after at h
    split at h
    · cases h
    · next comp' it'' hnext =>
      split_ifs at h with heq
      subst heq
      rw [next_some hnext, ih h, cons_append]

theorem Valid.after (hvalid : it.Valid sep) (h : it.after dot comps = some it') : it'.Valid sep := by
  induction comps generalizing it with
  | nil =>
    obtain rfl := Option.some.inj h
    exact hvalid
  | cons comp comps ih =>
    unfold Components.after at h
    split at h
    · cases h
    · next comp' it'' hnext =>
      split_ifs at h with heq
      exact ih (hvalid.next hnext) h

theorem after_append (h : it.toList dot = comps ++ rest) : ∃ it', it.after dot comps = some it' := by
  induction comps generalizing it with
  | nil => exact ⟨it, rfl⟩
  | cons comp comps ih =>
    cases hnext : it.next dot with
    | none =>
      rw [next_none hnext] at h
      cases h
    | some step =>
      obtain ⟨comp', it''⟩ := step
      rw [next_some hnext, cons_append] at h
      obtain ⟨rfl, hrest⟩ := List.cons.inj h
      obtain ⟨it', hafter⟩ := ih hrest
      exact ⟨it', by rw [Components.after, hnext]; exact (if_pos rfl).trans hafter⟩

end Components

/-! ## Paths -/

theorem components_valid (path : List α) : (components sep dot path).Valid sep := by
  cases path with
  | nil => exact ⟨Or.inl rfl, fun part h => by rw [List.mem_singleton.1 h]; exact not_mem_nil⟩
  | cons c path =>
    rw [components]
    split_ifs with hsep hdot
    · exact ⟨Or.inr (Or.inl rfl), fun _ => notMem_of_mem_splitOn⟩
    · refine ⟨Or.inr (Or.inr ⟨rfl, ?_⟩), fun _ => notMem_of_mem_splitOn⟩
      rcases hdot.2 with rfl | hhead
      · rfl
      · obtain ⟨path, rfl⟩ := List.head?_eq_some_iff.1 hhead
        show ((sep :: path).splitOn sep).head? = some []
        rw [splitOn_cons_eq_if_modifyHead, if_pos (beq_self_eq_true sep)]
        rfl
    · exact ⟨Or.inl rfl, fun _ => notMem_of_mem_splitOn⟩

theorem elements_intercalate (hparts : ∀ part ∈ parts, sep ∉ part)
    (hhead : ∀ part, parts.head? = some part → partComponent dot part ≠ none) :
    elements sep dot ([sep].intercalate parts) = parts.filterMap (partComponent dot) := by
  cases parts with
  | nil => rfl
  | cons part parts =>
    have hpart := hhead part rfl
    have hspl := splitOn_intercalate sep hparts (cons_ne_nil _ _)
    have htext : ∃ more, [sep].intercalate (part :: parts) = part ++ more ∧
        (more = [] ∨ more.head? = some sep) := by
      cases parts with
      | nil => exact ⟨[], by simp, Or.inl rfl⟩
      | cons part' parts => exact ⟨_, by rw [intercalate_cons_cons, append_assoc], Or.inr rfl⟩
    obtain ⟨more, htext, hmore⟩ := htext
    cases part with
    | nil => exact absurd (partComponent_eq_none.2 (Or.inl rfl)) hpart
    | cons c part =>
      have hc : c ≠ sep := by
        rintro rfl
        exact hparts _ (mem_cons_self ..) (mem_cons_self ..)
      have hdot : ¬(c = dot ∧ (part ++ more = [] ∨ (part ++ more).head? = some sep)) := by
        rintro ⟨rfl, hrest⟩
        cases part with
        | nil => exact hpart (partComponent_eq_none.2 (Or.inr rfl))
        | cons c' part =>
          rcases hrest with hrest | hrest
          · cases hrest
          · obtain rfl := Option.some.inj hrest
            exact hparts _ (mem_cons_self ..) (mem_cons_of_mem _ (mem_cons_self ..))
      rw [htext] at hspl ⊢
      rw [elements, cons_append, components, if_neg hc, if_neg hdot, Components.toList,
        ← cons_append, hspl]
      rfl

theorem elements_asPath (hne : dot ≠ sep) {it : Components α} (hvalid : it.Valid sep) :
    elements sep dot (it.asPath sep dot) = it.toList dot := by
  obtain ⟨front, rest⟩ := it
  have hseparated : ∀ part ∈ trimRight dot rest, sep ∉ part :=
    fun part hpart => hvalid.separated part (mem_trimRight hpart)
  rcases hvalid.front with rfl | rfl | ⟨rfl, hhead⟩
  · rw [Components.asPath, elements_intercalate, filterMap_trimRight, filterMap_trimLeft]
    · rfl
    · exact fun part hpart => hvalid.separated part (mem_trimLeft (mem_trimRight hpart))
    · intro part hpart
      cases htrim : trimLeft dot rest with
      | nil =>
        rw [htrim] at hpart
        cases hpart
      | cons first parts =>
        have hhead : (trimLeft dot rest).head? = some first := by
          rw [htrim]
          rfl
        have hfst := trimLeft_head hhead
        rw [htrim, trimRight_head rfl hfst] at hpart
        obtain rfl := Option.some.inj hpart
        exact hfst
  · rw [Components.asPath, elements, components, if_pos rfl, Components.toList,
      filterMap_splitOn_intercalate hseparated, filterMap_trimRight]
    rfl
  · have htext : [sep].intercalate (trimRight dot rest) = [] ∨
        ([sep].intercalate (trimRight dot rest)).head? = some sep := by
      cases htrim : trimRight dot rest with
      | nil => exact Or.inl rfl
      | cons first parts =>
        obtain ⟨more, hmore⟩ := List.rdropWhile_prefix (fun part => (partComponent dot part).isNone) rest
        rw [show rdropWhile (fun part => (partComponent dot part).isNone) rest =
          first :: parts from htrim] at hmore
        have hfst : first = [] := by
          rw [← hmore] at hhead
          exact Option.some.inj hhead
        subst hfst
        cases parts with
        | nil => exact Or.inl rfl
        | cons part parts => exact Or.inr rfl
    rw [Components.asPath, elements, components, if_neg hne, if_pos ⟨rfl, htext⟩, Components.toList,
      filterMap_splitOn_intercalate hseparated, filterMap_trimRight]
    rfl

theorem stripPrefix_of_elements (hne : dot ≠ sep) {rest : List (Component α)}
    (h : elements sep dot path = elements sep dot base ++ rest) :
    ∃ text, stripPrefix sep dot path base = some text ∧ elements sep dot text = rest := by
  obtain ⟨it, hafter⟩ := Components.after_append h
  refine ⟨it.asPath sep dot, by rw [stripPrefix, hafter]; rfl, ?_⟩
  rw [elements_asPath hne ((components_valid path).after hafter)]
  have hlist := Components.after_some hafter
  rw [show (components sep dot path).toList dot = _ from h] at hlist
  exact (append_cancel_left hlist).symm

theorem startsWith_iff : startsWith sep dot path base = true ↔
      elements sep dot base <+: elements sep dot path := by
  rw [startsWith, Option.isSome_iff_exists]
  constructor
  · rintro ⟨it, hafter⟩
    exact ⟨it.toList dot, (Components.after_some hafter).symm⟩
  · rintro ⟨rest, hrest⟩
    exact Components.after_append hrest.symm

/-! ## Longer paths -/

theorem body_append_sep (text more : List α) :
    body sep dot (text ++ sep :: more) = body sep dot text ++ body sep dot more := by
  rw [body, splitOn_append_cons_self, filterMap_append]
  rfl

/-- The components behind a separator. -/
theorem elements_append_sep (hpath : path ≠ []) :
    elements sep dot (path ++ sep :: more) = elements sep dot path ++ body sep dot more := by
  cases path with
  | nil => exact absurd rfl hpath
  | cons c path =>
    have hbody : body sep dot (path ++ sep :: more) = body sep dot path ++ body sep dot more :=
      body_append_sep path more
    have hbody' : body sep dot (c :: path ++ sep :: more) = body sep dot (c :: path) ++ body sep dot more :=
      body_append_sep (c :: path) more
    rw [cons_append] at hbody' ⊢
    rw [elements, elements, components, components]
    by_cases hsep : c = sep
    · rw [if_pos hsep, if_pos hsep]
      exact congrArg (Component.rootDir :: ·) hbody
    rw [if_neg hsep, if_neg hsep]
    by_cases hdot : c = dot ∧ (path = [] ∨ path.head? = some sep)
    · have hdot' : c = dot ∧ (path ++ sep :: more = [] ∨ (path ++ sep :: more).head? = some sep) := by
        refine ⟨hdot.1, Or.inr ?_⟩
        rcases hdot.2 with rfl | hhead
        · rfl
        · rw [List.head?_append, hhead]
          rfl
      rw [if_pos hdot, if_pos hdot']
      exact congrArg (Component.curDir :: ·) hbody
    · have hdot' : ¬(c = dot ∧ (path ++ sep :: more = [] ∨ (path ++ sep :: more).head? = some sep)) := by
        rintro ⟨hc, hrest⟩
        apply hdot
        refine ⟨hc, ?_⟩
        cases path with
        | nil => exact Or.inl rfl
        | cons c' path =>
          rcases hrest with hrest | hrest
          · cases hrest
          · exact Or.inr hrest
      rw [if_neg hdot, if_neg hdot']
      exact hbody'

theorem elements_push (hpath : path ≠ []) (hmore : hasRoot sep more = false) :
    elements sep dot (push sep path more) = elements sep dot path ++ body sep dot more := by
  rw [push, hmore, if_neg Bool.false_ne_true]
  by_cases hlast : path.getLast? = some sep
  · rw [if_pos (Or.inr hlast)]
    obtain ⟨front, rfl⟩ := List.getLast?_eq_some_iff.1 hlast
    rw [append_assoc, singleton_append]
    by_cases hfront : front = []
    · subst hfront
      rw [elements, elements, nil_append, nil_append, components, components, if_pos rfl,
        if_pos rfl]
      rfl
    · have hnil : body sep dot ([] : List α) = [] := rfl
      rw [elements_append_sep hfront, elements_append_sep hfront, hnil, List.append_nil]
  · rw [if_neg (by simp [hpath, hlast]), elements_append_sep hpath]

theorem body_name (hsep : sep ∉ text) (hnil : text ≠ []) (hdot : text ≠ [dot]) (hdots : text ≠ [dot, dot]) :
    body sep dot text = [.normal text] := by
  rw [body, splitOn_eq_singleton hsep, filterMap_cons, filterMap_nil, partComponent,
    if_neg (by simp [hnil, hdot]), if_neg hdots]

theorem elements_eq_body (hroot : hasRoot sep path = false)
    (hdot : (components sep dot path).front ≠ some .curDir) : elements sep dot path = body sep dot path := by
  cases path with
  | nil => rfl
  | cons c path =>
    have hc : c ≠ sep := by
      rintro rfl
      simp [hasRoot] at hroot
    rw [components, if_neg hc] at hdot
    rw [elements, components, if_neg hc]
    split_ifs at hdot ⊢ with hcur
    · exact absurd rfl hdot
    · rfl

theorem elements_name (hsep : sep ∉ text) (hnil : text ≠ []) (hdot : text ≠ [dot])
    (hdots : text ≠ [dot, dot]) : elements sep dot text = [.normal text] := by
  rw [elements_eq_body, body_name hsep hnil hdot hdots]
  · cases text with
    | nil => rfl
    | cons c text =>
      rw [hasRoot, List.head?_cons, beq_eq_false_iff_ne]
      intro heq
      rw [Option.some.inj heq] at hsep
      exact hsep (mem_cons_self ..)
  · cases text with
    | nil => exact absurd rfl hnil
    | cons c text =>
      rw [components, if_neg (fun heq : c = sep => hsep (heq ▸ mem_cons_self ..)), if_neg]
      · exact fun h => nomatch h
      · rintro ⟨rfl, rfl | hhead⟩
        · exact hdot rfl
        · exact hsep (mem_cons_of_mem _ (mem_of_head? hhead))

theorem elements_eq_body_of_names (hnames : ∀ comp ∈ elements sep dot path, ∃ name, comp = .normal name) :
    hasRoot sep path = false ∧ (components sep dot path).front ≠ some .curDir := by
  cases path with
  | nil => exact ⟨rfl, fun h => nomatch h⟩
  | cons c path =>
    rw [elements, components] at hnames
    rw [components, hasRoot, List.head?_cons]
    split_ifs at hnames ⊢ with hsep hdot
    · obtain ⟨name, hname⟩ := hnames .rootDir (mem_append_left _ (List.mem_singleton.2 rfl))
      cases hname
    · obtain ⟨name, hname⟩ := hnames .curDir (mem_append_left _ (List.mem_singleton.2 rfl))
      cases hname
    · exact ⟨by simpa using hsep, fun h => nomatch h⟩

omit [DecidableEq α] in
theorem locate_names (place names : List (List α)) : locate place (names.map .normal) = place ++ names := by
  induction names generalizing place with
  | nil => exact (List.append_nil _).symm
  | cons name names ih =>
    have hnext : locate place ((name :: names).map .normal) =
        locate (place ++ [name]) (names.map .normal) := rfl
    rw [hnext, ih, append_assoc, singleton_append]

omit [DecidableEq α] in
theorem locate_append (place : List (List α)) (comps comps' : List (Component α)) :
    locate place (comps ++ comps') = locate (locate place comps) comps' := foldl_append

end Paths

end Marfs.OsPath
