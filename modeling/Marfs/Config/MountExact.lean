import Marfs.Config.Mount
import Mathlib.Data.List.TakeWhile

/-!
# The mountpoint is recognised exactly

`config_validatemnt` works in place: it ends the current element of the path, and of its copy of the
mountpoint, with a NUL, and takes that back before it goes on.  Here it is with its edits
(`validatemntEdits`); the path is left as it was and the result is that of the scanner
(`validatemntEdits_eq`).

The scanner finds the first point of the path at which the mountpoint is reached, except that it does
not look before the first element: only where the mountpoint is the global root, and the path does not
begin with a name, is this missed (`validatemnt_exact_iff`).
-/

namespace Marfs.Config

open Marfs.Path List

/-! ## The code -/

/-- The character at an index; a string ends with a NUL. -/
def charOf (s : List Char) (i : Nat) : Char := s.getD i '\x00'

def strOf (s : List Char) (i : Nat) : List Char := (s.drop i).takeWhile (· ≠ '\x00')

def elemEnd (s : List Char) (i : Nat) : Nat :=
  i + ((s.drop i).takeWhile fun c => c ≠ '\x00' ∧ c ≠ '/').length

/-- The index behind separators. -/
def sepEnd (s : List Char) (i : Nat) : Nat := i + ((s.drop i).takeWhile (· = '/')).length

/-- A pointer to an index. -/
def cursorAt (s : List Char) (i : Nat) : Cursor := ⟨(s.take i).reverse, s.drop i⟩

def prevpathelemAt (path : List Char) (curpath : Nat) : Option Nat :=
  (configPrevpathelem (cursorAt path curpath)).map (·.before.length)

/-- A separator is replaced by a NUL. -/
def endAt (s : List Char) (i : Nat) : List Char := if charOf s i = '/' then s.set i '\x00' else s

def resumeAt (s : List Char) (replaced : Bool) (i : Nat) : List Char :=
  if replaced then s.set i '/' else s

/-- The copy of the mountpoint: its current element, and where that is ended; `replacemnt` if there was
a separator. -/
structure Mntparse where
  mntpoint : List Char
  mntelem : Nat
  mntparse : Nat
  replacemnt : Bool

def Mntparse.terminate (mntpoint : List Char) (mntelem : Nat) : Mntparse :=
  let mntparse := elemEnd mntpoint mntelem
  ⟨endAt mntpoint mntparse, mntelem, mntparse, charOf mntpoint mntparse = '/'⟩

/-- The mountpoint without its edit. -/
def Mntparse.restore (mnt : Mntparse) : List Char := resumeAt mnt.mntpoint mnt.replacemnt mnt.mntparse

def validateEdits : Nat → List Char → Mntparse → Nat → Option Nat × List Char
  | 0, path, _, _ => (none, path)
  | fuel + 1, path, mnt, pathelem =>
    if charOf path pathelem = '\x00' then (none, path)
    else
      let parsepath := elemEnd path pathelem
      let replacechar := decide (charOf path parsepath = '/')
      let edited := endAt path parsepath
      let restored := resumeAt edited replacechar parsepath
      let next := sepEnd restored parsepath
      if strOf edited pathelem = ['.', '.'] then
        match prevpathelemAt mnt.restore mnt.mntelem with
        | none => (none, restored)
        | some mntelem => validateEdits fuel restored (.terminate mnt.restore mntelem) next
      else if strOf edited pathelem = ['.'] then validateEdits fuel restored mnt next
      -- mounted at the global root
      else if charOf mnt.mntpoint mnt.mntelem = '\x00' then (some pathelem, restored)
      else if strOf edited pathelem ≠ strOf mnt.mntpoint mnt.mntelem then (none, restored)
      else
        let mntelem := sepEnd mnt.restore mnt.mntparse
        if charOf mnt.restore mntelem = '\x00' then (some next, restored)
        else validateEdits fuel restored (.terminate mnt.restore mntelem) next

/-- `config_validatemnt`: the index it returns, and the string of the path. -/
def validatemntEdits (config : MarfsConfig) (tgtns : Option NsRef) (subpath : List Char) :
    Option Nat × List Char :=
  let mntpoint := config.mountpoint
  match tgtns with
  | some _ =>
    let mntelem := (prevpathelemAt mntpoint mntpoint.length).getD mntpoint.length
    validateEdits subpath.length subpath (.terminate mntpoint mntelem) 0
  | none =>
    let parsepath := sepEnd subpath 0
    validateEdits (subpath.length - parsepath) subpath (.terminate mntpoint (sepEnd mntpoint 0))
      parsepath

/-! ## Indices and pointers -/

section Indices

variable {s : List Char} {i : Nat}

/-- Behind the longest front of a kind. -/
theorem drop_length_takeWhile (p : Char → Bool) (l : List Char) :
    l.drop (l.takeWhile p).length = l.dropWhile p := by
  have h := @List.drop_left _ (l.takeWhile p) (l.dropWhile p)
  rwa [takeWhile_append_dropWhile] at h

theorem elemEnd_eq (hnul : '\x00' ∉ s) : elemEnd s i = i + (firstElem '/' (s.drop i)).length := by
  have hsame : ∀ l : List Char, '\x00' ∉ l →
      (l.takeWhile fun c => decide (c ≠ '\x00' ∧ c ≠ '/')) = firstElem '/' l := by
    intro l hl
    induction l with
    | nil => rfl
    | cons c l ih =>
      have hc : c ≠ '\x00' := fun heq => hl (heq ▸ mem_cons_self)
      rw [firstElem, takeWhile_cons, takeWhile_cons, ih fun h => hl (mem_cons_of_mem c h)]
      simp [hc, firstElem]
  rw [elemEnd, hsame _ fun h => hnul (mem_of_mem_drop h)]

theorem drop_elemEnd (hnul : '\x00' ∉ s) : s.drop (elemEnd s i) = skipElem '/' (s.drop i) := by
  rw [elemEnd_eq hnul, ← drop_drop, firstElem, drop_length_takeWhile, skipElem]

theorem drop_sepEnd : s.drop (sepEnd s i) = skipSep '/' (s.drop i) := by
  rw [sepEnd, ← drop_drop, drop_length_takeWhile, skipSep]

theorem drop_next (hnul : '\x00' ∉ s) :
    s.drop (sepEnd s (elemEnd s i)) = nextElem '/' (s.drop i) := by
  rw [drop_sepEnd, drop_elemEnd hnul, nextElem]

theorem charOf_eq_nul (hnul : '\x00' ∉ s) : charOf s i = '\x00' ↔ s.drop i = [] := by
  rw [charOf, drop_eq_nil_iff, List.getD_eq_getElem?_getD]
  by_cases hi : i < s.length
  · rw [List.getElem?_eq_getElem hi, Option.getD_some]
    constructor
    · intro heq
      exact absurd (heq ▸ getElem_mem hi) hnul
    · intro hle
      omega
  · simp [Nat.le_of_not_lt hi]

theorem sepEnd_le (hi : i ≤ s.length) : sepEnd s (elemEnd s i) ≤ s.length := by
  have hfront : ∀ (p : Char → Bool) {j : Nat}, j ≤ s.length →
      j + ((s.drop j).takeWhile p).length ≤ s.length := by
    intro p j hj
    have hle := (List.takeWhile_prefix (l := s.drop j) p).length_le
    rw [length_drop] at hle
    omega
  exact hfront _ (hfront _ hi)

/-- An edit is taken back. -/
theorem resumeAt_endAt (s : List Char) (i : Nat) :
    resumeAt (endAt s i) (decide (charOf s i = '/')) i = s := by
  unfold resumeAt endAt
  by_cases h : charOf s i = '/'
  · rw [if_pos (decide_eq_true h), if_pos h, set_set]
    apply ext_getElem?
    intro j
    rw [List.getElem?_set]
    split
    · next hij =>
      subst hij
      rw [charOf, List.getD_eq_getElem?_getD] at h
      split
      · next hlt =>
        rw [List.getElem?_eq_getElem hlt, Option.getD_some] at h
        rw [List.getElem?_eq_getElem hlt, h]
      · next hge => rw [List.getElem?_eq_none (Nat.le_of_not_lt hge)]
    · rfl
  · rw [if_neg (by simpa using h), if_neg h]

theorem drop_endAt (hnul : '\x00' ∉ s) :
    (endAt s (elemEnd s i)).drop i = firstElem '/' (s.drop i) ∨
      ∃ rest, (endAt s (elemEnd s i)).drop i = firstElem '/' (s.drop i) ++ '\x00' :: rest := by
  have hdrop := drop_elemEnd (i := i) hnul
  have hspl := firstElem_append '/' (s.drop i)
  have hchar : charOf s (elemEnd s i) = (skipElem '/' (s.drop i)).head?.getD '\x00' := by
    rw [charOf, List.getD_eq_getElem?_getD, ← hdrop, List.head?_drop]
  unfold endAt
  rcases skipElem_cases '/' (s.drop i) with hend | ⟨rest, hrest⟩
  · left
    rw [hchar, hend, if_neg (by decide)]
    rw [hend, List.append_nil] at hspl
    exact hspl.symm
  · right
    refine ⟨rest, ?_⟩
    rw [hchar, hrest, if_pos (show ('/' :: rest).head?.getD '\x00' = '/' from rfl), elemEnd_eq hnul,
      drop_set, if_neg (by omega), Nat.add_sub_cancel_left]
    rw [hrest] at hspl
    generalize firstElem '/' (s.drop i) = name at hspl ⊢
    rw [← hspl, set_append_right _ _ le_rfl, Nat.sub_self]
    rfl

theorem nul_notMem_firstElem (hnul : '\x00' ∉ s) : '\x00' ∉ firstElem '/' (s.drop i) := fun h =>
  hnul (mem_of_mem_drop ((List.takeWhile_prefix _).subset h))

theorem strOf_endAt (hnul : '\x00' ∉ s) :
    strOf (endAt s (elemEnd s i)) i = firstElem '/' (s.drop i) := by
  have hname : ∀ c ∈ firstElem '/' (s.drop i), decide (c ≠ '\x00') = true := by
    intro c hc
    exact decide_eq_true fun heq => nul_notMem_firstElem hnul (heq ▸ hc)
  unfold strOf
  rcases drop_endAt (i := i) hnul with h | ⟨rest, h⟩
  · rw [h, List.takeWhile_eq_self_iff.2 hname]
  · rw [h, takeWhile_append_of_pos hname, takeWhile_cons_of_neg (by decide),
      List.append_nil]

theorem charOf_endAt (hnul : '\x00' ∉ s) (hhead : (s.drop i).head? ≠ some '/') :
    charOf (endAt s (elemEnd s i)) i = '\x00' ↔ s.drop i = [] := by
  have hchar : charOf (endAt s (elemEnd s i)) i =
      ((endAt s (elemEnd s i)).drop i).head?.getD '\x00' := by
    rw [charOf, List.getD_eq_getElem?_getD, List.head?_drop]
  rw [hchar]
  by_cases hnil : s.drop i = []
  · simp only [hnil, iff_true]
    rcases drop_endAt (i := i) hnul with h | ⟨rest, h⟩
    · rw [h, hnil]
      rfl
    · rw [h, hnil]
      rfl
  · simp only [hnil, iff_false]
    cases hfst : firstElem '/' (s.drop i) with
    | nil => exact absurd hfst (firstElem_ne_nil hhead hnil)
    | cons c name =>
      have hc : c ≠ '\x00' := by
        intro heq
        apply nul_notMem_firstElem (i := i) hnul
        rw [← heq, hfst]
        exact mem_cons_self
      rcases drop_endAt (i := i) hnul with h | ⟨rest, h⟩
      · rw [h, hfst]
        exact hc
      · rw [h, hfst]
        exact hc

/-! ## Pointers into the mountpoint -/

/-- A pointer is told by what is before it. -/
theorem cursorAt_of_append {cur : Cursor} (h : cur.before.reverse ++ cur.after = s) :
    cur = cursorAt s cur.before.length ∧ cur.before.length ≤ s.length := by
  obtain ⟨before, after⟩ := cur
  dsimp only at h ⊢
  subst h
  rw [cursorAt, take_left' length_reverse, drop_left' length_reverse,
    reverse_reverse]
  simp

theorem skipBack_append (before after : List Char) :
    (skipBack before after).before.reverse ++ (skipBack before after).after =
      before.reverse ++ after := by
  induction before generalizing after with
  | nil => rfl
  | cons c before ih =>
    rw [skipBack]
    split
    · rw [ih, reverse_cons, append_assoc]
      rfl
    · rw [reverse_cons, append_assoc]
      rfl

theorem elemBack_append (before after : List Char) :
    (elemBack before after).before.reverse ++ (elemBack before after).after =
      before.reverse ++ after := by
  induction before generalizing after with
  | nil => rfl
  | cons c before ih =>
    rw [elemBack]
    split
    · rfl
    · rw [ih, reverse_cons, append_assoc]
      rfl

theorem prev_eq_cursorAt {cur : Cursor} (h : configPrevpathelem (cursorAt s i) = some cur) :
    cur = cursorAt s cur.before.length ∧ cur.before.length ≤ s.length := by
  apply cursorAt_of_append
  unfold configPrevpathelem at h
  dsimp only at h
  split at h
  · cases h
  · obtain rfl := Option.some.inj h
    rw [elemBack_append, skipBack_append, cursorAt, reverse_reverse, take_append_drop]

theorem cursorAt_next (hnul : '\x00' ∉ s) (hi : i ≤ s.length) :
    (cursorAt s i).next = cursorAt s (sepEnd s (elemEnd s i)) := by
  have happend : (cursorAt s i).next.before.reverse ++ (cursorAt s i).next.after = s := by
    have hspl : firstElem '/' (s.drop i) ++ ((skipElem '/' (s.drop i)).takeWhile (· = '/') ++
        nextElem '/' (s.drop i)) = s.drop i := by
      rw [nextElem, skipSep, takeWhile_append_dropWhile, firstElem_append]
    simp only [Cursor.next, cursorAt, reverse_append, reverse_reverse, append_assoc]
    rw [hspl, take_append_drop]
  have hlen : (cursorAt s i).next.before.length = sepEnd s (elemEnd s i) := by
    simp only [Cursor.next, cursorAt, length_append, length_reverse, length_take,
      Nat.min_eq_left hi]
    rw [sepEnd, drop_elemEnd hnul, elemEnd_eq hnul]
    omega
  rw [(cursorAt_of_append happend).1, hlen]

end Indices

/-! ## The edits do not show -/

section Edits

variable {mountpoint path : List Char} {k : Nat}

theorem restore_terminate (mntpoint : List Char) (mntelem : Nat) :
    (Mntparse.terminate mntpoint mntelem).restore = mntpoint := resumeAt_endAt _ _

theorem validateEdits_eq (hmount : '\x00' ∉ mountpoint) (hpath : '\x00' ∉ path) {fuel mntelem pathelem : Nat}
    (hmntelem : mntelem ≤ mountpoint.length) (hchain : OnChain mountpoint (cursorAt mountpoint mntelem) k) :
    (validateEdits fuel path (.terminate mountpoint mntelem) pathelem).2 = path ∧
      (validateEdits fuel path (.terminate mountpoint mntelem) pathelem).1.map (path.drop ·) =
        validateLoop fuel (cursorAt mountpoint mntelem) (path.drop pathelem) := by
  induction fuel generalizing mntelem pathelem k with
  | zero => exact ⟨rfl, rfl⟩
  | succ fuel ih =>
    rw [validateEdits, validateLoop]
    simp only [resumeAt_endAt, restore_terminate, charOf_eq_nul hpath]
    by_cases hnil : path.drop pathelem = []
    · rw [if_pos hnil, if_pos hnil]
      exact ⟨rfl, rfl⟩
    rw [if_neg hnil, if_neg hnil, strOf_endAt hpath]
    have hterm : (Mntparse.terminate mountpoint mntelem).mntelem = mntelem := rfl
    by_cases hup : firstElem '/' (path.drop pathelem) = ['.', '.']
    · -- the mountpoint is parsed backwards
      rw [if_pos hup, if_pos hup, hterm, prevpathelemAt]
      rcases hchain.prev with ⟨-, hnone⟩ | ⟨prev, hprev, -, hchain'⟩
      · rw [hnone]
        exact ⟨rfl, rfl⟩
      · obtain ⟨hcursor, hle⟩ := prev_eq_cursorAt hprev
        rw [hprev]
        dsimp only [Option.map_some]
        rw [← drop_next hpath]
        rw [hcursor] at hchain'
        have hnext : (validateEdits fuel path _ (sepEnd path (elemEnd path pathelem))).2 = path ∧ _ :=
          ih hle hchain'
        rw [← hcursor] at hnext
        exact hnext
    rw [if_neg hup, if_neg hup]
    by_cases hhere : firstElem '/' (path.drop pathelem) = ['.']
    · rw [if_pos hhere, if_pos hhere, ← drop_next hpath]
      exact ih hmntelem hchain
    rw [if_neg hhere, if_neg hhere]
    have hhead : (mountpoint.drop mntelem).head? ≠ some '/' := hchain.head
    have hglob : charOf (Mntparse.terminate mountpoint mntelem).mntpoint mntelem = '\x00' ↔
        (cursorAt mountpoint mntelem).after = [] := charOf_endAt hmount hhead
    simp only [hterm, hglob]
    by_cases hend : (cursorAt mountpoint mntelem).after = []
    · rw [if_pos hend, if_pos hend]
      exact ⟨rfl, rfl⟩
    rw [if_neg hend, if_neg hend]
    have hname : strOf (Mntparse.terminate mountpoint mntelem).mntpoint mntelem =
        firstElem '/' (cursorAt mountpoint mntelem).after := strOf_endAt hmount
    have hprs : (Mntparse.terminate mountpoint mntelem).mntparse = elemEnd mountpoint mntelem := rfl
    rw [hname, hprs]
    by_cases hoth : firstElem '/' (path.drop pathelem) ≠ firstElem '/' (cursorAt mountpoint mntelem).after
    · rw [if_pos hoth, if_pos hoth]
      exact ⟨rfl, rfl⟩
    rw [if_neg hoth, if_neg hoth]
    -- to the next element of both
    have hcursor := cursorAt_next hmount hmntelem
    obtain ⟨hchain', -⟩ := hchain.next hend
    simp only [charOf_eq_nul hmount]
    rw [hcursor] at hchain' ⊢
    rw [← drop_next hpath]
    by_cases hent : mountpoint.drop (sepEnd mountpoint (elemEnd mountpoint mntelem)) = []
    · rw [if_pos hent, if_pos (show (cursorAt _ _).after = [] from hent)]
      exact ⟨rfl, rfl⟩
    · rw [if_neg hent, if_neg (show ¬ (cursorAt _ _).after = [] from hent)]
      exact ih (sepEnd_le hmntelem) hchain'

theorem validatemntEdits_eq {config : MarfsConfig} (hmount : '\x00' ∉ config.mountpoint)
    (habs : config.mountpoint = [] ∨ config.mountpoint.head? = some '/') (hpath : '\x00' ∉ path)
    (tgtns : Option NsRef) :
    (validatemntEdits config tgtns path).2 = path ∧
      (validatemntEdits config tgtns path).1.map (path.drop ·) =
        configValidatemnt config tgtns path := by
  cases tgtns with
  | some tgtns =>
    have hend : cursorAt config.mountpoint config.mountpoint.length = ⟨config.mountpoint.reverse, []⟩ := by
      rw [cursorAt, take_length, drop_length]
    have hchain := onChain_last habs
    rw [← hend] at hchain
    unfold validatemntEdits configValidatemnt prevpathelemAt
    dsimp only
    rw [← hend]
    cases hprev : configPrevpathelem (cursorAt config.mountpoint config.mountpoint.length) with
    | none =>
      rw [hprev] at hchain
      exact validateEdits_eq hmount hpath le_rfl hchain
    | some prev =>
      obtain ⟨hcursor, hle⟩ := prev_eq_cursorAt hprev
      rw [hprev] at hchain
      dsimp only [Option.map_some, Option.getD_some] at hchain ⊢
      rw [hcursor] at hchain
      have heq : (validateEdits path.length path _ 0).2 = path ∧ _ :=
        validateEdits_eq hmount hpath hle hchain
      rw [← hcursor] at heq
      exact heq
  | none =>
    have hfst : cursorAt config.mountpoint (sepEnd config.mountpoint 0) =
        ⟨(config.mountpoint.takeWhile (· = '/')).reverse, skipSep '/' config.mountpoint⟩ := by
      have happend : config.mountpoint.takeWhile (· = '/') ++ skipSep '/' config.mountpoint =
          config.mountpoint := takeWhile_append_dropWhile
      have hcursor := (@cursorAt_of_append _ ⟨(config.mountpoint.takeWhile (· = '/')).reverse,
        skipSep '/' config.mountpoint⟩ (by rw [reverse_reverse, happend])).1
      rw [length_reverse] at hcursor
      rw [hcursor, sepEnd, Nat.zero_add, drop_zero]
    have hchain := onChain_first habs
    rw [← hfst] at hchain
    have hle : sepEnd config.mountpoint 0 ≤ config.mountpoint.length := by
      rw [sepEnd, Nat.zero_add, drop_zero]
      exact (List.takeWhile_prefix _).length_le
    have hdrop : path.drop (sepEnd path 0) = skipSep '/' path := drop_sepEnd
    have hfuel : path.length - sepEnd path 0 = (skipSep '/' path).length := by
      rw [← hdrop, length_drop]
    unfold validatemntEdits configValidatemnt
    dsimp only
    rw [← hfst, ← hdrop, hfuel, ← hdrop]
    exact validateEdits_eq hmount hpath hle hchain

end Edits

/-! ## The walk to the mountpoint -/

/-- One component of a path, at some depth of the chain of directories that leads to the mountpoint; there
is no step beside the chain or above the global root. -/
def chainStep (mount : List (List Char)) (depth : Nat) (name : List Char) : Option Nat :=
  if name = ['.', '.'] then if depth = 0 then none else some (depth - 1)
  else if name = ['.'] then some depth
  else if mount[depth]? = some name then some (depth + 1)
  else none

/-- The components of a path. -/
def chainWalk (mount : List (List Char)) (depth : Nat) (names : List (List Char)) : Option Nat :=
  names.foldlM (chainStep mount) depth

/-- The text behind some of the first components. -/
def behind (n : Nat) (path : List Char) : List Char := (nextElem '/')^[n] (skipSep '/' path)

def LeftBehind (mount : List (List Char)) (depth : Nat) (path rest : List Char) : Prop :=
  ∃ n ≤ (components '/' path).length,
    chainWalk mount depth ((components '/' path).take n) = some mount.length ∧
      (∀ m < n, chainWalk mount depth ((components '/' path).take m) ≠ some mount.length) ∧
      rest = behind n path

section Walk

variable {mount : List (List Char)} {depth : Nat} {path rest : List Char}

theorem chainWalk_cons (name : List Char) (names : List (List Char)) :
    chainWalk mount depth (name :: names) =
      (chainStep mount depth name).bind fun depth => chainWalk mount depth names := rfl

theorem leftBehind_here : LeftBehind mount mount.length path rest ↔ rest = skipSep '/' path := by
  constructor
  · rintro ⟨n, -, -, hfst, rfl⟩
    cases n with
    | zero => rfl
    | succ n => exact absurd rfl (hfst 0 n.succ_pos)
  · rintro rfl
    exact ⟨0, Nat.zero_le _, rfl, fun m hm => absurd hm m.not_lt_zero, rfl⟩

theorem not_leftBehind_nil (hdep : depth ≠ mount.length) : ¬ LeftBehind mount depth [] rest := by
  rintro ⟨n, hn, hwalk, -, -⟩
  rw [components_nil, take_nil] at hwalk
  exact hdep (Option.some.inj hwalk)

theorem leftBehind_cons (hdep : depth ≠ mount.length) (hhead : path.head? ≠ some '/') (hne : path ≠ []) :
    LeftBehind mount depth path rest ↔ ∃ depth', chainStep mount depth (firstElem '/' path) = some depth' ∧
      LeftBehind mount depth' (nextElem '/' path) rest := by
  have hcomps := components_eq_cons hhead hne
  have hbeh : ∀ n, behind (n + 1) path = behind n (nextElem '/' path) := by
    intro n
    rw [behind, behind, Function.iterate_succ_apply, skipSep_of_head hhead,
      skipSep_of_head (nextElem_head path)]
  constructor
  · rintro ⟨n, hn, hwalk, hfst, rfl⟩
    rw [hcomps] at hn hwalk hfst
    cases n with
    | zero => exact absurd (Option.some.inj hwalk) hdep
    | succ n =>
      rw [take_succ_cons, chainWalk_cons] at hwalk
      obtain ⟨depth', hstep, hwalk'⟩ := Option.bind_eq_some_iff.1 hwalk
      refine ⟨depth', hstep, n, Nat.le_of_succ_le_succ hn, hwalk', fun m hm hreach => ?_, hbeh n⟩
      refine hfst (m + 1) (Nat.succ_lt_succ hm) ?_
      rw [take_succ_cons, chainWalk_cons, hstep]
      exact hreach
  · rintro ⟨depth', hstep, n, hn, hwalk, hfst, rfl⟩
    refine ⟨n + 1, ?_, ?_, fun m hm => ?_, (hbeh n).symm⟩
    · rw [hcomps]
      exact Nat.succ_le_succ hn
    · rw [hcomps, take_succ_cons, chainWalk_cons, hstep]
      exact hwalk
    · rw [hcomps]
      cases m with
      | zero => exact fun h => hdep (Option.some.inj h)
      | succ m =>
        rw [take_succ_cons, chainWalk_cons, hstep]
        exact hfst m (Nat.lt_of_succ_lt_succ hm)

/-- Separators at the head do not count. -/
theorem leftBehind_skipSep :
    LeftBehind mount depth (skipSep '/' path) rest ↔ LeftBehind mount depth path rest := by
  unfold LeftBehind behind
  rw [components_skipSep, skipSep_of_head (skipSep_head path)]

end Walk

/-! ## Recognition -/

section Recognition

variable {config : MarfsConfig} {cur : Cursor} {fuel k : Nat} {path rest : List Char}

theorem validateLoop_iff (hchain : OnChain config.mountpoint cur k) (hk : k < config.mount.length)
    (hhead : path.head? ≠ some '/') (hfuel : path.length ≤ fuel) :
    validateLoop fuel cur path = some rest ↔ LeftBehind config.mount k path rest := by
  induction fuel generalizing cur k path with
  | zero =>
    obtain rfl := List.length_eq_zero_iff.1 (Nat.le_zero.1 hfuel)
    exact ⟨fun h => (by cases h), fun h => absurd h (not_leftBehind_nil hk.ne)⟩
  | succ fuel ih =>
    rw [validateLoop]
    by_cases hnil : path = []
    · rw [if_pos hnil, hnil]
      exact ⟨fun h => (by cases h), fun h => absurd h (not_leftBehind_nil hk.ne)⟩
    have hlt := nextElem_length_lt hhead hnil
    have hnext : (nextElem '/' path).length ≤ fuel := by omega
    rw [if_neg hnil, leftBehind_cons hk.ne hhead hnil]
    by_cases hup : firstElem '/' path = ['.', '.']
    · rw [if_pos hup, chainStep, if_pos hup]
      rcases hchain.prev with ⟨hzero, hnone⟩ | ⟨prev, hprev, hpos, hchain'⟩
      · rw [hnone, if_pos hzero]
        exact ⟨fun h => (by cases h), by rintro ⟨_, h, _⟩; cases h⟩
      · rw [hprev, if_neg hpos.ne']
        dsimp only
        rw [ih hchain' (by omega) (nextElem_head path) hnext]
        simp only [Option.some.injEq, exists_eq_left']
    rw [if_neg hup, chainStep, if_neg hup]
    by_cases hhere : firstElem '/' path = ['.']
    · rw [if_pos hhere, if_pos hhere, ih hchain hk (nextElem_head path) hnext]
      simp only [Option.some.injEq, exists_eq_left']
    rw [if_neg hhere, if_neg hhere]
    have hend : cur.after ≠ [] := fun h => hk.ne (hchain.after_eq_nil.1 h)
    obtain ⟨hchain', hname⟩ := hchain.next hend
    have hname' : config.mount[k]? = some (firstElem '/' cur.after) := hname
    rw [if_neg hend, hname']
    by_cases hoth : firstElem '/' path ≠ firstElem '/' cur.after
    · rw [if_pos hoth, if_neg fun h => hoth (Option.some.inj h).symm]
      exact ⟨fun h => (by cases h), by rintro ⟨_, h, _⟩; cases h⟩
    rw [if_neg hoth, if_pos (congrArg some (not_not.1 hoth).symm)]
    simp only [Option.some.injEq, exists_eq_left']
    by_cases hent : cur.next.after = []
    · have hlast : k + 1 = config.mount.length := hchain'.after_eq_nil.1 hent
      rw [if_pos hent, hlast, leftBehind_here, skipSep_of_head (nextElem_head path), Option.some.injEq]
      exact eq_comm
    · have hlast : k + 1 ≠ config.mount.length := fun h => hent (hchain'.after_eq_nil.2 h)
      rw [if_neg hent]
      exact ih hchain' (by omega) (nextElem_head path) hnext

/-- Where a path begins: at the global root, or at the parent of the mountpoint. -/
def MarfsConfig.startDepth (config : MarfsConfig) : Option NsRef → Nat
  | none => 0
  | some _ => config.mount.length - 1

/-- The mountpoint is recognised: the path is left as it was, and what is returned is what is left of it
behind the shortest part that leads to the mountpoint, if there is one. -/
def Recognised (config : MarfsConfig) (tgtns : Option NsRef) (path : List Char) : Prop :=
  (validatemntEdits config tgtns path).2 = path ∧
    ∀ rest, (∃ i, (validatemntEdits config tgtns path).1 = some i ∧ path.drop i = rest) ↔
      LeftBehind config.mount (config.startDepth tgtns) path rest

theorem recognised_iff (hmount : '\x00' ∉ config.mountpoint)
    (habs : config.mountpoint.head? = some '/') (hpath : '\x00' ∉ path) (tgtns : Option NsRef) :
    Recognised config tgtns path ↔ ∀ rest, configValidatemnt config tgtns path = some rest ↔
      LeftBehind config.mount (config.startDepth tgtns) path rest := by
  obtain ⟨hsame, hres⟩ := validatemntEdits_eq hmount (Or.inr habs) hpath tgtns
  unfold Recognised
  simp only [hsame, true_and, ← hres, Option.map_eq_some_iff]

def BeginsWithName (path : List Char) : Prop :=
  ∃ name ∈ (components '/' path).head?, name ≠ ['.', '.'] ∧ name ≠ ['.']

theorem beginsWithName_iff (hhead : path.head? ≠ some '/') :
    BeginsWithName path ↔
      path ≠ [] ∧ firstElem '/' path ≠ ['.', '.'] ∧ firstElem '/' path ≠ ['.'] := by
  unfold BeginsWithName
  by_cases hnil : path = []
  · simp [hnil]
  · rw [components_eq_cons hhead hnil]
    simp [hnil]

theorem validateLoop_global (hchain : OnChain config.mountpoint cur 0) (hmount : config.mount = [])
    (hhead : path.head? ≠ some '/') (hfuel : path.length ≤ fuel) :
    validateLoop fuel cur path = some path ↔ BeginsWithName path := by
  rw [beginsWithName_iff hhead]
  cases fuel with
  | zero =>
    obtain rfl := List.length_eq_zero_iff.1 (Nat.le_zero.1 hfuel)
    exact ⟨fun h => (by cases h), fun h => absurd rfl h.1⟩
  | succ fuel =>
    rw [validateLoop]
    by_cases hnil : path = []
    · rw [if_pos hnil]
      exact ⟨fun h => (by cases h), fun h => absurd hnil h.1⟩
    rw [if_neg hnil]
    by_cases hup : firstElem '/' path = ['.', '.']
    · rw [if_pos hup]
      rcases hchain.prev with ⟨-, hnone⟩ | ⟨-, -, hpos, -⟩
      · rw [hnone]
        exact ⟨fun h => (by cases h), fun h => absurd hup h.2.1⟩
      · exact absurd hpos (Nat.lt_irrefl 0)
    rw [if_neg hup]
    by_cases hhere : firstElem '/' path = ['.']
    · rw [if_pos hhere]
      constructor
      · intro h
        have hle := (validateLoop_suffix h).length_le
        exact absurd (nextElem_length_lt hhead hnil) (Nat.not_lt.2 hle)
      · exact fun h => absurd hhere h.2.2
    · have hlen : (components '/' config.mountpoint).length = 0 := congrArg List.length hmount
      rw [if_neg hhere, if_pos (hchain.after_eq_nil.2 hlen.symm)]
      exact ⟨fun _ => ⟨hnil, hup, hhere⟩, fun _ => rfl⟩

/-- The mountpoint is recognised exactly, unless it is the global root and the path does not begin with
a name. -/
theorem validatemnt_exact_iff (hmount : '\x00' ∉ config.mountpoint)
    (habs : config.mountpoint.head? = some '/') (hpath : '\x00' ∉ path) (tgtns : Option NsRef)
    (hrel : tgtns ≠ none → path.head? ≠ some '/') :
    Recognised config tgtns path ↔ config.mount ≠ [] ∨ BeginsWithName path := by
  rw [recognised_iff hmount habs hpath tgtns]
  by_cases hglobal : config.mount = []
  · -- the mountpoint is reached before the first component
    have hstart : config.startDepth tgtns = config.mount.length := by
      cases tgtns <;> simp [MarfsConfig.startDepth, hglobal]
    have hreach : (∀ rest, configValidatemnt config tgtns path = some rest ↔
        LeftBehind config.mount (config.startDepth tgtns) path rest) ↔
          configValidatemnt config tgtns path = some (skipSep '/' path) := by
      simp only [hstart, leftBehind_here]
      constructor
      · exact fun h => (h _).2 rfl
      · intro h rest
        rw [h, Option.some.injEq]
        exact eq_comm
    rw [hreach, iff_of_eq (congrArg (· ∨ _) (eq_false (not_not.2 hglobal))), false_or]
    have hlength : (components '/' config.mountpoint).length = 0 := congrArg List.length hglobal
    cases tgtns with
    | none =>
      have hname : BeginsWithName (skipSep '/' path) ↔ BeginsWithName path := by
        unfold BeginsWithName
        rw [components_skipSep]
      rw [← hname]
      exact validateLoop_global (onChain_first (Or.inr habs)) hglobal (skipSep_head path) le_rfl
    | some tgtns =>
      have hhead := hrel (Option.some_ne_none tgtns)
      have hchain := onChain_last (Or.inr habs)
      rw [hlength] at hchain
      rw [skipSep_of_head hhead]
      exact validateLoop_global hchain hglobal hhead le_rfl
  · have hpos : 0 < config.mount.length := List.length_pos_iff.2 hglobal
    refine ⟨fun _ => Or.inl hglobal, fun _ rest => ?_⟩
    cases tgtns with
    | none =>
      rw [← leftBehind_skipSep]
      exact validateLoop_iff (onChain_first (Or.inr habs)) hpos (skipSep_head path) le_rfl
    | some tgtns =>
      have hlast : config.mount.length - 1 < config.mount.length := by omega
      exact validateLoop_iff (onChain_last (Or.inr habs)) hlast (hrel (Option.some_ne_none tgtns)) le_rfl

def globalConfig : MarfsConfig where
  mountpoint := ['/']
  rootns := 0
  ns := fun _ => ⟨"r|/.".toList, 0, 0, 0, 0, 0, none, [], none, none⟩

/-- A path to a mountpoint below the global root is recognised. -/
theorem mnt_recognised : Recognised { globalConfig with mountpoint := "/mnt/marfs/".toList } none
      "//mnt/../mnt/./marfs//file".toList :=
  (validatemnt_exact_iff (by decide +kernel) (by decide +kernel) (by decide +kernel) none nofun).2
    (Or.inl (by decide +kernel))

/-- The global root is mounted, and its own path is not recognised. -/
theorem globalRoot_unrecognised :
    (validatemntEdits globalConfig none ['/']).1 = none ∧
      LeftBehind globalConfig.mount (globalConfig.startDepth none) ['/'] [] ∧
      ¬ Recognised globalConfig none ['/'] := by
  have hnone : (validatemntEdits globalConfig none ['/']).1 = none := by decide +kernel
  have hreach : LeftBehind globalConfig.mount (globalConfig.startDepth none) ['/'] [] :=
    ⟨0, Nat.zero_le _, by decide +kernel, fun m hm => absurd hm m.not_lt_zero, by decide +kernel⟩
  refine ⟨hnone, hreach, fun h => ?_⟩
  obtain ⟨i, hi, -⟩ := (h.2 []).2 hreach
  rw [hnone] at hi
  cases hi

end Recognition

end Marfs.Config
