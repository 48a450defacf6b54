import Marfs.Api.Dirhandle

/-!
# What a directory handle lists

Behind a handle lie the subspaces from its index on, as long as the bit is not in its location, and what the
MDAL has left; a value that `marfs_telldir` returns stands for the one or the other (`Recalls`).  Each call
keeps to this reading, so a handle is a cursor over the listing of its directory, but for two defects at the
root of a namespace.  The `ENOENT` of a missing subspace stays in `errno` where the same call reaches the end
of the directory, and a name may be too long for the handle's entry.
-/

namespace Marfs.Dirhandle

open Marfs.Config Marfs.Cursor List

/-! ## The offset bit -/

theorem getLsbD_nsOffsetMask (i : Nat) : nsOffsetMask.getLsbD i = decide (61 = i) := by
  have htwo : nsOffsetMask = BitVec.twoPow 64 61 := rfl
  rw [htwo, BitVec.getLsbD_twoPow, decide_eq_true (by decide : 61 < 64), Bool.true_and]

variable {loc : BitVec 64}

theorem and_nsOffsetMask_eq_zero : loc &&& nsOffsetMask = 0 ↔ loc.getLsbD 61 = false := by
  constructor
  · intro h
    have hbit : (loc &&& nsOffsetMask).getLsbD 61 = false := by rw [h]; rfl
    rwa [BitVec.getLsbD_and, getLsbD_nsOffsetMask, decide_eq_true rfl, Bool.and_true] at hbit
  · intro h
    apply BitVec.eq_of_getLsbD_eq
    intro i hi
    have hzero : (0 : BitVec 64).getLsbD i = false := BitVec.getLsbD_zero
    rw [BitVec.getLsbD_and, getLsbD_nsOffsetMask, hzero]
    by_cases hbit : 61 = i
    · rw [← hbit, h, Bool.false_and]
    · rw [decide_eq_false hbit, Bool.and_false]

theorem ofNat_and_nsOffsetMask {i : Nat} (h : i < 2 ^ 61) : BitVec.ofNat 64 i &&& nsOffsetMask = 0 := by
  rw [and_nsOffsetMask_eq_zero, BitVec.getLsbD_ofNat, Nat.testBit_lt_two_pow h, Bool.and_false]

theorem or_nsOffsetMask_and_ne_zero (loc : BitVec 64) : (loc ||| nsOffsetMask) &&& nsOffsetMask ≠ 0 := by
  intro h
  have hbit := and_nsOffsetMask_eq_zero.1 h
  rw [BitVec.getLsbD_or, getLsbD_nsOffsetMask, decide_eq_true rfl, Bool.or_true] at hbit
  cases hbit

/-- A value without the bit is found again under it. -/
theorem or_nsOffsetMask_and_not (h : loc &&& nsOffsetMask = 0) :
    (loc ||| nsOffsetMask) &&& ~~~nsOffsetMask = loc := by
  have hloc := and_nsOffsetMask_eq_zero.1 h
  apply BitVec.eq_of_getLsbD_eq
  intro i hi
  rw [BitVec.getLsbD_and, BitVec.getLsbD_or, BitVec.getLsbD_not, getLsbD_nsOffsetMask, decide_eq_true hi]
  by_cases hbit : 61 = i
  · rw [← hbit, hloc]
    rfl
  · rw [decide_eq_false hbit, Bool.or_false, Bool.not_false, Bool.and_true, Bool.and_true]

/-! ## Directories and a faithful MDAL -/

section Faithful

variable {config : MarfsConfig} {σ : Type}

/-- The entries of the MDAL that a directory shows: those that the filter rejects are left out at the root of
a namespace. -/
def Dir.visible (dir : Dir config) (mdal : Mdal σ) (names : List (List Char)) : List (List Char) :=
  names.filter fun name => !(decide (dir.depth = 0) && mdal.pathfilter name)

def existing (present : List Char × Nat → Bool) (nodes : List (List Char × Nat)) : List (List Char) :=
  (nodes.filter present).map Prod.fst

def Dir.listing (dir : Dir config) (mdal : Mdal σ) (present : List Char × Nat → Bool)
    (entries : List (List Char)) : List (List Char) :=
  (if dir.depth = 0 then existing present dir.subnodes else []) ++ dir.visible mdal entries

/-- The MDAL's calls on a directory with the entries `entries` succeed and do what they are to do, where
`left` is what a handle of the MDAL has yet to read, and `present` are the subspaces on disk. -/
structure Faithful (dir : Dir config) (mdal : Mdal σ) (present : List Char × Nat → Bool)
    (entries : List (List Char)) (left : σ → List (List Char)) : Prop where
  suffix : ∀ metahandle, left metahandle <:+ entries
  readdir_nil : ∀ metahandle errno, left metahandle = [] →
    ∃ after, mdal.readdir metahandle errno = (none, errno, after) ∧ left after = []
  readdir_cons : ∀ metahandle errno name rest, left metahandle = name :: rest →
    ∃ after, mdal.readdir metahandle errno = (some name, errno, after) ∧ left after = rest
  telldir : ∀ metahandle errno, ∃ loc errno' after,
    mdal.telldir metahandle errno = (loc, errno', after) ∧ left after = left metahandle ∧
      loc &&& nsOffsetMask = 0 ∧
      ∀ other errno, ∃ errno' after,
        mdal.seekdir other loc errno = (0, errno', after) ∧ left after = left metahandle
  rewinddir : ∀ metahandle errno, ∃ errno' after,
    mdal.rewinddir metahandle errno = (0, errno', after) ∧ left after = entries
  found : ∀ node ∈ dir.subnodes, present node = true → ∀ repo path,
    configNsinfo (config.ns node.2).idstr = some (repo, path, 0) → ∀ errno,
      (mdal.statnamespace (config.ns node.2).prepo path errno).1 = 0
  missing : ∀ node ∈ dir.subnodes, present node = false → ∀ repo path,
    configNsinfo (config.ns node.2).idstr = some (repo, path, 0) → ∀ errno,
      mdal.statnamespace (config.ns node.2).prepo path errno = (-1, .enoent)

variable {dir : Dir config} {mdal : Mdal σ} {present : List Char × Nat → Bool}
  {entries : List (List Char)} {left : σ → List (List Char)}

/-! ## Reading -/

theorem readEntry_spec (hmdal : Faithful dir mdal present entries left) (errno : Errno) :
    ∀ (fuel : Nat) (metahandle : σ), (left metahandle).length < fuel →
      ∃ after, readEntry mdal (decide (dir.depth = 0)) fuel metahandle errno =
          some ((dir.visible mdal (left metahandle)).head?, errno, after) ∧
        dir.visible mdal (left after) = (dir.visible mdal (left metahandle)).tail := by
  intro fuel
  induction fuel with
  | zero =>
    intro metahandle hfuel
    exact absurd hfuel (Nat.not_lt_zero _)
  | succ fuel ih =>
    intro metahandle hfuel
    cases hleft : left metahandle with
    | nil =>
      obtain ⟨after, hread, hafter⟩ := hmdal.readdir_nil metahandle errno hleft
      refine ⟨after, ?_, ?_⟩
      · simp only [readEntry, hread]
        rfl
      · rw [hafter]
        rfl
    | cons name rest =>
      obtain ⟨after, hread, hafter⟩ := hmdal.readdir_cons metahandle errno name rest hleft
      by_cases hhidden : (decide (dir.depth = 0) && mdal.pathfilter name) = true
      · -- the entry is filtered, and the next one is read
        have hshown : dir.visible mdal (name :: rest) = dir.visible mdal (left after) := by
          rw [hafter, Dir.visible, filter_cons_of_neg (by simp [hhidden])]
          rfl
        rw [hleft, length_cons] at hfuel
        rw [hshown]
        obtain ⟨last, hlast, hrest⟩ := ih after (by rw [hafter]; omega)
        refine ⟨last, ?_, hrest⟩
        simp only [readEntry, hread, hhidden, if_true]
        exact hlast
      · have hshown : dir.visible mdal (name :: rest) = name :: dir.visible mdal rest := by
          rw [Dir.visible, filter_cons_of_pos (by rw [Bool.eq_false_iff.2 hhidden]; rfl)]
          rfl
        refine ⟨after, ?_, ?_⟩
        · simp only [readEntry, hread, hhidden, hshown]
          rfl
        · rw [hafter, hshown]
          rfl

variable {node : List Char × Nat} {i fuel : Nat} {dh : Dhandle config σ}
  {state : Dhandle config σ × Errno} {rest : List (List Char)}

theorem Faithful.stat_found (hmdal : Faithful dir mdal present entries left) (hnode : node ∈ dir.subnodes)
    (hpres : present node = true) : ∃ repo path,
    configNsinfo (config.ns node.2).idstr = some (repo, path, 0) ∧ ∀ errno,
      (mdal.statnamespace (config.ns node.2).prepo path errno).1 = 0 := by
  obtain ⟨repo, path, hinfo⟩ := dir.linked node hnode
  exact ⟨repo, path, hinfo, hmdal.found node hnode hpres repo path hinfo⟩

theorem Faithful.stat_missing (hmdal : Faithful dir mdal present entries left) (hnode : node ∈ dir.subnodes)
    (hmiss : present node = false) : ∃ repo path,
    configNsinfo (config.ns node.2).idstr = some (repo, path, 0) ∧ ∀ errno,
      mdal.statnamespace (config.ns node.2).prepo path errno = (-1, .enoent) := by
  obtain ⟨repo, path, hinfo⟩ := dir.linked node hnode
  exact ⟨repo, path, hinfo, hmdal.missing node hnode hmiss repo path hinfo⟩

theorem listSubspaces_skip (hmdal : Faithful dir mdal present entries left) (alloc count : Nat)
    (nodes : List (List Char × Nat)) :
    ∀ (before : List (List Char × Nat)) (location : BitVec 64) (errno : Errno),
      (∀ node ∈ before, node ∈ dir.subnodes ∧ present node = false) →
      listSubspaces config mdal alloc count (before ++ nodes) location errno =
        listSubspaces config mdal alloc count nodes (location + BitVec.ofNat 64 before.length)
          (if before = [] then errno else .enoent) := by
  intro before
  induction before with
  | nil =>
    intro location errno _
    rw [nil_append, if_pos rfl, length_nil, BitVec.add_zero]
  | cons node before ih =>
    intro location errno hbef
    obtain ⟨hnode, hmiss⟩ := hbef node mem_cons_self
    obtain ⟨repo, path, hinfo, hstat⟩ := hmdal.stat_missing hnode hmiss
    have hnext : listSubspaces config mdal alloc count (node :: (before ++ nodes)) location errno =
        listSubspaces config mdal alloc count (before ++ nodes) (location + 1) .enoent := by
      simp [listSubspaces, hinfo, hstat]
    have hidx : location + 1 + BitVec.ofNat 64 before.length =
        location + BitVec.ofNat 64 (node :: before).length := by
      rw [length_cons, Nat.add_comm, BitVec.ofNat_add, ← BitVec.add_assoc]
      rfl
    rw [cons_append, hnext, ih (location + 1) .enoent
      (fun other hoth => hbef other (mem_cons_of_mem _ hoth)), hidx, ite_self,
      if_neg (cons_ne_nil _ _)]

theorem listSubspaces_found (hmdal : Faithful dir mdal present entries left) (alloc count : Nat)
    (nodes : List (List Char × Nat)) {location : BitVec 64} (errno : Errno) (hnode : node ∈ dir.subnodes)
    (hpres : present node = true) (hbit : (location + 1) &&& nsOffsetMask = 0) :
    listSubspaces config mdal alloc count (node :: nodes) location errno =
      if node.1.length < alloc then .entry node.1 (location + 1) else .failed .enametoolong location := by
  obtain ⟨repo, path, hinfo, hstat⟩ := hmdal.stat_found hnode hpres
  by_cases hfits : node.1.length < alloc
  · have hbit' : location + 1#64 &&& nsOffsetMask = 0#64 := hbit
    simp [listSubspaces, hinfo, hstat, hbit', hfits]
  · simp [listSubspaces, hinfo, hstat, hfits]

/-! ## What is ahead of a handle -/

def Dir.behind (dir : Dir config) : BitVec 64 := if dir.Split then nsOffsetMask else 0

theorem Dir.behind_ne (dir : Dir config) : dir.behind ≠ nsOffsetMask ||| 1 := by
  rw [Dir.behind]
  split
  · decide
  · decide

theorem Dir.not_split_or_behind (dir : Dir config) : ¬ dir.Split ∨ dir.behind &&& nsOffsetMask ≠ 0 := by
  by_cases hspl : dir.Split
  · right
    rw [Dir.behind, if_pos hspl]
    decide
  · exact Or.inl hspl

theorem Dir.index_lt (dir : Dir config) (h : i ≤ dir.subnodes.length) : i < 2 ^ 60 := by
  have hfits : 24 * dir.subnodes.length < 2 ^ 64 := dir.fits
  omega

/-- A handle that was opened on `dir` has `rest` ahead: it is at an index of the subspaces and the MDAL's
handle is fresh, or it is behind the subspaces. -/
inductive Ahead (dir : Dir config) (mdal : Mdal σ) (present : List Char × Nat → Bool)
    (entries : List (List Char)) (left : σ → List (List Char)) (dh : Dhandle config σ)
    (rest : List (List Char)) : Prop
  | before (i : Nat) (todir : dh.toDir = dir) (alloc : dh.subspcnamealloc = 256)
      (split : dir.Split) (index : i ≤ dir.subnodes.length)
      (location : dh.location = BitVec.ofNat 64 i) (fresh : left dh.metahandle = entries)
      (rest : rest = existing present (dir.subnodes.drop i) ++ dir.visible mdal entries)
  | behind (todir : dh.toDir = dir) (alloc : dh.subspcnamealloc = 256)
      (location : dh.location = dir.behind)
      (rest : rest = dir.visible mdal (left dh.metahandle))

/-- What was ahead when `marfs_telldir` returned a value. -/
inductive Recalls (dir : Dir config) (mdal : Mdal σ) (present : List Char × Nat → Bool)
    (entries : List (List Char)) (left : σ → List (List Char)) (loc : BitVec 64)
    (rest : List (List Char)) : Prop
  | index (i : Nat) (split : dir.Split) (index : i ≤ dir.subnodes.length)
      (loc : loc = BitVec.ofNat 64 i)
      (rest : rest = existing present (dir.subnodes.drop i) ++ dir.visible mdal entries)
  | offset (offset : BitVec 64) (names : List (List Char)) (clear : offset &&& nsOffsetMask = 0)
      (seekdir : ∀ metahandle errno, ∃ errno' after,
        mdal.seekdir metahandle offset errno = (0, errno', after) ∧ left after = names)
      (loc : loc = if dir.Split then offset ||| nsOffsetMask else offset)
      (rest : rest = dir.visible mdal names)

/-- Subspaces that a handle reports as it should: the name of each that exists fits into an entry, and the
last one exists, unless the MDAL has an entry to show. -/
structure Reported (present : List Char × Nat → Bool) (shown : List (List Char))
    (nodes : List (List Char × Nat)) : Prop where
  fits : ∀ node ∈ nodes, present node = true → node.1.length < 256
  ends : shown = [] → ∀ node, nodes.getLast? = some node → present node = true

theorem existing_cases (present : List Char × Nat → Bool) (nodes : List (List Char × Nat)) :
    (existing present nodes = [] ∧ ∀ node ∈ nodes, present node = false) ∨
      ∃ before node after, nodes = before ++ node :: after ∧
        (∀ other ∈ before, present other = false) ∧ present node = true ∧
        existing present nodes = node.1 :: existing present after := by
  induction nodes with
  | nil => exact Or.inl ⟨rfl, fun _ h => nomatch h⟩
  | cons node nodes ih =>
    cases hpres : present node with
    | true =>
      refine Or.inr ⟨[], node, nodes, rfl, (fun _ h => nomatch h), hpres, ?_⟩
      rw [existing, filter_cons_of_pos hpres, map_cons]
      rfl
    | false =>
      have hsame : existing present (node :: nodes) = existing present nodes := by
        rw [existing, filter_cons_of_neg (by rw [hpres]; exact Bool.false_ne_true)]
        rfl
      rw [hsame]
      rcases ih with ⟨hnone, hmiss⟩ | ⟨before, first, after, hnodes, hbef, hfst, hexisting⟩
      · exact Or.inl ⟨hnone, List.forall_mem_cons.2 ⟨hpres, hmiss⟩⟩
      · refine Or.inr ⟨node :: before, first, after, ?_, List.forall_mem_cons.2 ⟨hpres, hbef⟩,
          hfst, hexisting⟩
        rw [hnodes, cons_append]

theorem drop_eq_append_cons {α : Type*} {nodes before after : List α} {node : α}
    (h : nodes.drop i = before ++ node :: after) :
    nodes.drop (i + before.length + 1) = after ∧ i + before.length + 1 ≤ nodes.length := by
  constructor
  · rw [Nat.add_assoc, ← drop_drop, h, ← drop_drop, drop_left]
    rfl
  · have hlen := congrArg List.length h
    rw [length_drop, length_append, length_cons] at hlen
    omega

variable {shown : List (List Char)} {nodes before after : List (List Char × Nat)}

theorem reported_missing (hmiss : ∀ node ∈ nodes, present node = false) :
    Reported present shown nodes ↔ (shown = [] → nodes = []) := by
  constructor
  · intro hrep hshown
    cases hlast : nodes.getLast? with
    | none => exact List.getLast?_eq_none_iff.1 hlast
    | some node =>
      have hfound := hrep.ends hshown node hlast
      rw [hmiss node (mem_of_getLast? hlast)] at hfound
      cases hfound
  · intro hends
    constructor
    · intro node hnode hpres
      rw [hmiss node hnode] at hpres
      cases hpres
    · intro hshown node hlast
      rw [hends hshown] at hlast
      cases hlast

theorem reported_found (hmiss : ∀ other ∈ before, present other = false) (hpres : present node = true) :
    Reported present shown (before ++ node :: after) ↔
      node.1.length < 256 ∧ Reported present shown after := by
  have hlast : (before ++ node :: after).getLast? = some (after.getLast?.getD node) := by
    rw [List.getLast?_append, List.getLast?_cons]
    rfl
  constructor
  · intro hrep
    refine ⟨hrep.fits node (by simp) hpres, ?_, ?_⟩
    · intro other hoth
      exact hrep.fits other (mem_append_right _ (mem_cons_of_mem _ hoth))
    · intro hshown other hoth
      apply hrep.ends hshown other
      rw [hlast, hoth]
      rfl
  · rintro ⟨hfits, hrep⟩
    constructor
    · intro other hoth hfound
      rcases List.mem_append.1 hoth with hbef | hcons
      · rw [hmiss other hbef] at hfound
        cases hfound
      · rcases List.mem_cons.1 hcons with rfl | hafter
        · exact hfits
        · exact hrep.fits other hafter hfound
    · intro hshown other hoth
      rw [hlast] at hoth
      cases hafter : after.getLast? with
      | none =>
        rw [hafter] at hoth
        cases hoth
        exact hpres
      | some last =>
        rw [hafter] at hoth
        cases hoth
        exact hrep.ends hshown last hafter

/-! ## The calls -/

theorem readBehind_spec (hmdal : Faithful dir mdal present entries left) (hfuel : entries.length < fuel)
    (hdir : dh.toDir = dir) (hloc : dh.location ≠ nsOffsetMask ||| 1) (cachederrno errno : Errno) :
    ∃ after, dir.visible mdal (left after) = (dir.visible mdal (left dh.metahandle)).tail ∧
      readBehind mdal fuel dh cachederrno errno =
        some ((dir.visible mdal (left dh.metahandle)).head?,
          if dir.visible mdal (left dh.metahandle) = [] then errno else cachederrno,
          { dh with metahandle := after }) := by
  subst hdir
  have hleft : (left dh.metahandle).length < fuel :=
    Nat.lt_of_le_of_lt (hmdal.suffix dh.metahandle).length_le hfuel
  obtain ⟨after, hread, hafter⟩ := readEntry_spec hmdal errno fuel dh.metahandle hleft
  refine ⟨after, hafter, ?_⟩
  rw [readBehind, if_neg hloc, hread]
  cases dh.visible mdal (left dh.metahandle) with
  | nil => rfl
  | cons name rest => rfl

theorem marfsReaddir_missing (hmdal : Faithful dir mdal present entries left) (fuel : Nat)
    (hdir : dh.toDir = dir) (hspl : dir.Split) (hidx : i ≤ dir.subnodes.length)
    (hloc : dh.location = BitVec.ofNat 64 i) (hmiss : ∀ node ∈ dir.subnodes.drop i, present node = false)
    (errno : Errno) :
    marfsReaddir mdal fuel dh errno = readBehind mdal fuel { dh with location := nsOffsetMask } errno
      (if dir.subnodes.drop i = [] then .unset else .enoent) := by
  subst hdir
  have hlt := dh.index_lt hidx
  have hbit : dh.location &&& nsOffsetMask = 0 := by
    rw [hloc]
    exact ofNat_and_nsOffsetMask (by omega)
  have hnat : dh.location.toNat = i := by
    rw [hloc, BitVec.toNat_ofNat]
    omega
  have hskip := listSubspaces_skip hmdal dh.subspcnamealloc dh.subnodes.length []
    (dh.subnodes.drop i) dh.location .unset
    (fun node hnode => ⟨mem_of_mem_drop hnode, hmiss node hnode⟩)
  rw [List.append_nil] at hskip
  rw [marfsReaddir, if_pos ⟨hspl, hbit⟩, hnat, hskip]
  rfl

theorem marfsReaddir_found (hmdal : Faithful dir mdal present entries left) (fuel : Nat)
    (hdir : dh.toDir = dir) (hall : dh.subspcnamealloc = 256) (hspl : dir.Split)
    (hidx : i ≤ dir.subnodes.length) (hloc : dh.location = BitVec.ofNat 64 i)
    (hnodes : dir.subnodes.drop i = before ++ node :: after) (hmiss : ∀ other ∈ before, present other = false)
    (hpres : present node = true) (errno : Errno) :
    marfsReaddir mdal fuel dh errno =
      if node.1.length < 256 then
        some (some node.1, errno, { dh with location := BitVec.ofNat 64 (i + before.length + 1) })
      else
        some (none, .enametoolong, { dh with location := BitVec.ofNat 64 (i + before.length) }) := by
  subst hdir
  have hlt := dh.index_lt hidx
  have hcnt := (drop_eq_append_cons hnodes).2
  have hbit : dh.location &&& nsOffsetMask = 0 := by
    rw [hloc]
    exact ofNat_and_nsOffsetMask (by omega)
  have hnat : dh.location.toNat = i := by
    rw [hloc, BitVec.toNat_ofNat]
    omega
  have hmem : ∀ other ∈ before ++ node :: after, other ∈ dh.subnodes := by
    intro other hoth
    rw [← hnodes] at hoth
    exact mem_of_mem_drop hoth
  have hat : dh.location + BitVec.ofNat 64 before.length = BitVec.ofNat 64 (i + before.length) := by
    rw [hloc, BitVec.ofNat_add]
  have hnext : BitVec.ofNat 64 (i + before.length) + 1 = BitVec.ofNat 64 (i + before.length + 1) :=
    (BitVec.ofNat_add (i + before.length) 1).symm
  have hclear : (BitVec.ofNat 64 (i + before.length) + 1) &&& nsOffsetMask = 0 := by
    rw [hnext]
    exact ofNat_and_nsOffsetMask (by have := dh.index_lt hcnt; omega)
  rw [marfsReaddir, if_pos ⟨hspl, hbit⟩, hnat, hnodes,
    listSubspaces_skip hmdal _ _ (node :: after) before dh.location .unset
      (fun other hoth => ⟨hmem other (mem_append_left _ hoth), hmiss other hoth⟩),
    hat, listSubspaces_found hmdal _ _ after _ (hmem node (by simp)) hpres hclear, hall, hnext]
  by_cases hfits : node.1.length < 256
  · rw [if_pos hfits, if_pos hfits]
  · rw [if_neg hfits, if_neg hfits]

theorem dirStep_read_behind (hmdal : Faithful dir mdal present entries left) (hfuel : entries.length < fuel)
    {errno : Errno} (hread : marfsReaddir mdal fuel state.1 state.2 =
      readBehind mdal fuel dh state.2 errno) (hdir : dh.toDir = dir) (hall : dh.subspcnamealloc = 256)
    (hloc : dh.location = dir.behind) (herrno : dir.visible mdal (left dh.metahandle) = [] → errno = .unset) :
    (dirStep mdal fuel state .read).1 =
        (dir.visible mdal (left dh.metahandle)).head?.elim .ended .entry ∧
      Ahead dir mdal present entries left (dirStep mdal fuel state .read).2.1
        (dir.visible mdal (left dh.metahandle)).tail := by
  have hne : dh.location ≠ nsOffsetMask ||| 1 := by
    rw [hloc]
    exact dir.behind_ne
  obtain ⟨after, hafter, hbeh⟩ := readBehind_spec hmdal hfuel hdir hne state.2 errno
  rw [hbeh] at hread
  have hnext : Ahead dir mdal present entries left { dh with metahandle := after }
      (dir.visible mdal (left dh.metahandle)).tail := .behind hdir hall hloc hafter.symm
  cases hnames : dir.visible mdal (left dh.metahandle) with
  | nil =>
    rw [hnames, if_pos rfl, herrno hnames] at hread
    rw [hnames] at hnext
    simp only [dirStep, hread, List.head?_nil]
    exact ⟨rfl, hnext⟩
  | cons name rest =>
    rw [hnames, if_neg (cons_ne_nil _ _)] at hread
    rw [hnames] at hnext
    simp only [dirStep, hread, List.head?_cons]
    exact ⟨rfl, hnext⟩

theorem Reported.drop (h : Reported present shown nodes) (i : Nat) :
    Reported present shown (nodes.drop i) where
  fits := fun node hnode => h.fits node (mem_of_mem_drop hnode)
  ends := by
    intro hshown node hlast
    rw [List.getLast?_drop] at hlast
    split at hlast
    · cases hlast
    · exact h.ends hshown node hlast

theorem dirStep_read (hmdal : Faithful dir mdal present entries left) (hfuel : entries.length < fuel)
    (hrep : dir.depth = 0 → Reported present (dir.visible mdal entries) dir.subnodes)
    (hahead : Ahead dir mdal present entries left state.1 rest) :
    (dirStep mdal fuel state .read).1 = rest.head?.elim .ended .entry ∧
      Ahead dir mdal present entries left (dirStep mdal fuel state .read).2.1 rest.tail := by
  cases hahead with
  | behind hdir hall hloc hrest =>
    have hread : marfsReaddir mdal fuel state.1 state.2 =
        readBehind mdal fuel state.1 state.2 .unset := by
      rw [marfsReaddir, if_neg]
      rintro ⟨hspl, hbit⟩
      rw [hloc] at hbit
      rw [hdir] at hspl
      exact dir.not_split_or_behind.elim (fun h => h hspl) (fun h => h hbit)
    rw [hrest]
    exact dirStep_read_behind hmdal hfuel hread hdir hall hloc (fun _ => rfl)
  | before i hdir hall hspl hidx hloc hfresh hrest =>
    have hdrop := (hrep hspl.1).drop i
    rcases existing_cases present (dir.subnodes.drop i) with
      ⟨hnone, hmiss⟩ | ⟨before, node, after, hnodes, hbef, hfound, hexisting⟩
    · have hread := marfsReaddir_missing hmdal fuel hdir hspl hidx hloc hmiss state.2
      have hends := (reported_missing hmiss).1 hdrop
      have hnames : rest = dir.visible mdal (left state.1.metahandle) := by
        rw [hrest, hnone, nil_append, hfresh]
      have hbeh : nsOffsetMask = dir.behind := (if_pos hspl).symm
      have herrno : dir.visible mdal (left state.1.metahandle) = [] →
          (if dir.subnodes.drop i = [] then Errno.unset else .enoent) = .unset := by
        intro hshown
        rw [hfresh] at hshown
        exact if_pos (hends hshown)
      have hstep := dirStep_read_behind hmdal hfuel hread hdir hall hbeh herrno
      rw [hnames]
      exact hstep
    · rw [hnodes, reported_found hbef hfound] at hdrop
      have hread := marfsReaddir_found hmdal fuel hdir hall hspl hidx hloc hnodes hbef hfound
        state.2
      rw [if_pos hdrop.1] at hread
      obtain ⟨hafter, hcnt⟩ := drop_eq_append_cons hnodes
      rw [hrest, hexisting]
      simp only [dirStep, hread]
      exact ⟨rfl, .before (i + before.length + 1) hdir hall hspl hcnt rfl hfresh (by rw [hafter]; rfl)⟩

theorem dirStep_tell (hmdal : Faithful dir mdal present entries left) (fuel : Nat)
    (hahead : Ahead dir mdal present entries left state.1 rest) :
    ∃ loc, (dirStep mdal fuel state .tell).1 = .told loc ∧
      Recalls dir mdal present entries left loc rest ∧
      Ahead dir mdal present entries left (dirStep mdal fuel state .tell).2.1 rest := by
  cases hahead with
  | before i hdir hall hspl hidx hloc hfresh hrest =>
    have hlt := dir.index_lt hidx
    have hclear : state.1.location &&& nsOffsetMask = 0 := by
      rw [hloc]
      exact ofNat_and_nsOffsetMask (by omega)
    have htell : marfsTelldir mdal state.1 state.2 = (state.1.location, state.2, state.1) := by
      rw [marfsTelldir, if_neg, if_neg]
      · rw [hdir, not_or, not_not, not_not]
        exact ⟨hspl, hclear⟩
      · rintro ⟨-, hinvalid⟩
        rw [hinvalid] at hclear
        exact absurd hclear (by decide)
    refine ⟨state.1.location, ?_, .index i hspl hidx hloc hrest, ?_⟩
    · simp only [dirStep, htell]
    · simp only [dirStep, htell]
      exact .before i hdir hall hspl hidx hloc hfresh hrest
  | behind hdir hall hloc hrest =>
    obtain ⟨offset, errno, after, htold, hafter, hclear, hseek⟩ :=
      hmdal.telldir state.1.metahandle state.2
    have htell : marfsTelldir mdal state.1 state.2 =
        (if dir.Split then offset ||| nsOffsetMask else offset, errno,
          { state.1 with metahandle := after }) := by
      rw [marfsTelldir, if_neg, if_pos, htold]
      · dsimp only
        rw [hdir]
        by_cases hspl : dir.Split
        · rw [if_pos hspl, if_neg (not_not_intro hclear), if_pos hspl]
        · rw [if_neg hspl, if_neg hspl]
      · rw [hdir, hloc]
        exact dir.not_split_or_behind
      · rintro ⟨-, hinvalid⟩
        exact dir.behind_ne (hloc ▸ hinvalid)
    refine ⟨_, ?_, .offset offset (left state.1.metahandle) hclear hseek rfl hrest, ?_⟩
    · simp only [dirStep, htell]
    · simp only [dirStep, htell]
      exact .behind hdir hall hloc (by rw [hrest, hafter])

theorem dirStep_seek (hmdal : Faithful dir mdal present entries left) (fuel : Nat) {names : List (List Char)}
    {loc : BitVec 64} (hahead : Ahead dir mdal present entries left state.1 rest)
    (hrecalls : Recalls dir mdal present entries left loc names) :
    (dirStep mdal fuel state (.seek loc)).1 = .done ∧
      Ahead dir mdal present entries left (dirStep mdal fuel state (.seek loc)).2.1 names := by
  have hdir : state.1.toDir = dir := by cases hahead <;> assumption
  have hall : state.1.subspcnamealloc = 256 := by cases hahead <;> assumption
  cases hrecalls with
  | index i hspl hidx hloc hnames =>
    have hlt := dir.index_lt hidx
    have hclear : loc &&& nsOffsetMask = 0 := by
      rw [hloc]
      exact ofNat_and_nsOffsetMask (by omega)
    have hbef : ¬ (¬ state.1.Split ∨ loc &&& nsOffsetMask ≠ 0) := by
      rw [hdir, not_or, not_not, not_not]
      exact ⟨hspl, hclear⟩
    by_cases horig : state.1.location &&& nsOffsetMask ≠ 0
    · -- the handle was behind the subspaces, and the MDAL's is rewound
      obtain ⟨errno, after, hrewind, hafter⟩ := hmdal.rewinddir state.1.metahandle state.2
      have hseek : marfsSeekdir mdal state.1 loc state.2 =
          (0, errno, { state.1 with metahandle := after, location := loc }) := by
        rw [marfsSeekdir, if_neg hbef, if_pos horig, hrewind]
        rfl
      simp only [dirStep, hseek, if_true]
      exact ⟨trivial, .before i hdir hall hspl hidx hloc hafter hnames⟩
    · have hfresh : left state.1.metahandle = entries := by
        cases hahead with
        | before _ _ _ _ _ _ hfresh _ => exact hfresh
        | behind _ _ hbeh _ =>
          rw [hbeh] at horig
          exact absurd (dir.not_split_or_behind.resolve_left (not_not_intro hspl)) horig
      have hseek : marfsSeekdir mdal state.1 loc state.2 =
          (0, state.2, { state.1 with location := loc }) := by
        rw [marfsSeekdir, if_neg hbef, if_neg horig]
      simp only [dirStep, hseek, if_true]
      exact ⟨trivial, .before i hdir hall hspl hidx hloc hfresh hnames⟩
  | offset offset left' hclear hseekdir hloc hnames =>
    obtain ⟨errno, after, hsought, hafter⟩ := hseekdir state.1.metahandle state.2
    have hseek : marfsSeekdir mdal state.1 loc state.2 =
        (0, errno, { state.1 with metahandle := after, location := dir.behind }) := by
      subst hdir
      have hcond : ¬ state.1.Split ∨ loc &&& nsOffsetMask ≠ 0 := by
        by_cases hspl : state.1.Split
        · rw [if_pos hspl] at hloc
          exact Or.inr (hloc ▸ or_nsOffsetMask_and_ne_zero offset)
        · exact Or.inl hspl
      have htgt : (if state.1.Split then loc &&& ~~~nsOffsetMask else loc) = offset := by
        by_cases hspl : state.1.Split
        · rw [if_pos hspl, hloc, if_pos hspl, or_nsOffsetMask_and_not hclear]
        · rw [if_neg hspl, hloc, if_neg hspl]
      have hlocation : (if state.1.Split then nsOffsetMask else state.1.location) = state.1.behind := by
        cases hahead with
        | before _ _ _ hspl _ _ _ _ => rw [if_pos hspl, Dir.behind, if_pos hspl]
        | behind _ _ hbeh _ =>
          rw [hbeh, Dir.behind]
          split <;> rfl
      rw [marfsSeekdir, if_pos hcond]
      simp only [htgt, hlocation, hsought]
      rfl
    simp only [dirStep, hseek, if_true]
    exact ⟨trivial, .behind hdir hall rfl (by rw [hnames, hafter])⟩

theorem Dir.listing_of_split (hspl : dir.Split) : dir.listing mdal present entries =
    existing present (dir.subnodes.drop 0) ++ dir.visible mdal entries := by
  rw [Dir.listing, if_pos hspl.1, drop_zero]

theorem Dir.listing_of_not_split (hspl : ¬ dir.Split) :
    dir.listing mdal present entries = dir.visible mdal entries := by
  rw [Dir.listing]
  by_cases hdep : dir.depth = 0
  · have hnone : dir.subnodes = [] := by
      by_contra hsome
      exact hspl ⟨hdep, fun hlen => hsome (List.length_eq_zero_iff.1 hlen)⟩
    rw [if_pos hdep, hnone]
    rfl
  · rw [if_neg hdep, nil_append]

theorem Ahead.start (hdir : dh.toDir = dir) (hall : dh.subspcnamealloc = 256) (hloc : dh.location = 0)
    (hfresh : left dh.metahandle = entries) :
    Ahead dir mdal present entries left dh (dir.listing mdal present entries) := by
  by_cases hspl : dir.Split
  · exact .before 0 hdir hall hspl (Nat.zero_le _) hloc hfresh (Dir.listing_of_split hspl)
  · have hbeh : dh.location = dir.behind := by
      rw [hloc, Dir.behind, if_neg hspl]
    exact .behind hdir hall hbeh (by rw [Dir.listing_of_not_split hspl, hfresh])

theorem dirStep_rewind (hmdal : Faithful dir mdal present entries left) (fuel : Nat)
    (hahead : Ahead dir mdal present entries left state.1 rest) :
    (dirStep mdal fuel state .rewind).1 = .done ∧
      Ahead dir mdal present entries left (dirStep mdal fuel state .rewind).2.1
        (dir.listing mdal present entries) := by
  cases hahead with
  | before i hdir hall hspl hidx hloc hfresh hrest =>
    have hlt := dir.index_lt hidx
    have hclear : state.1.location &&& nsOffsetMask = 0 := by
      rw [hloc]
      exact ofNat_and_nsOffsetMask (by omega)
    have hrewind : marfsRewinddir mdal state.1 state.2 = (0, state.2, { state.1 with location := 0 }) := by
      rw [marfsRewinddir, if_neg]
      rw [hdir, not_or, not_not, not_not]
      exact ⟨hspl, hclear⟩
    simp only [dirStep, hrewind, if_true]
    exact ⟨trivial, .start hdir hall rfl hfresh⟩
  | behind hdir hall hloc hrest =>
    obtain ⟨errno, after, hrewound, hafter⟩ := hmdal.rewinddir state.1.metahandle state.2
    have hrewind : marfsRewinddir mdal state.1 state.2 =
        (0, errno, { state.1 with metahandle := after, location := 0 }) := by
      rw [marfsRewinddir, if_pos, hrewound]
      · rfl
      · rw [hdir, hloc]
        exact dir.not_split_or_behind
    simp only [dirStep, hrewind, if_true]
    exact ⟨trivial, .start hdir hall rfl hafter⟩

/-! ## Runs -/

theorem dirStep_simulates (hmdal : Faithful dir mdal present entries left) (hfuel : entries.length < fuel)
    (hrep : dir.depth = 0 → Reported present (dir.visible mdal entries) dir.subnodes) :
    Simulates (dirStep mdal fuel) (dir.listing mdal present entries)
      (fun state => Ahead dir mdal present entries left state.1)
      (Recalls dir mdal present entries left) where
  read_nil := fun hahead => dirStep_read hmdal hfuel hrep hahead
  read_cons := fun hahead => dirStep_read hmdal hfuel hrep hahead
  tell := fun hahead => dirStep_tell hmdal fuel hahead
  seek := fun hahead hrecalls => dirStep_seek hmdal fuel hahead hrecalls
  rewind := fun hahead => dirStep_rewind hmdal fuel hahead

/-- Where a handle at an index is a cursor, the subspaces from there on are reported: reading on, it comes
by each that exists, and then by the end. -/
theorem reported_of_resumes (hmdal : Faithful dir mdal present entries left) (hfuel : entries.length < fuel)
    (hspl : dir.Split) {listing : List (List Char)} (n : Nat) :
    ∀ (i : Nat) (state : Dhandle config σ × Errno), dir.subnodes.length - i = n →
      i ≤ dir.subnodes.length → state.1.toDir = dir → state.1.subspcnamealloc = 256 →
      state.1.location = BitVec.ofNat 64 i → left state.1.metahandle = entries →
      (∀ calls, Resumes listing (existing present (dir.subnodes.drop i) ++ dir.visible mdal entries) []
        (run (dirStep mdal fuel) state calls)) →
      Reported present (dir.visible mdal entries) (dir.subnodes.drop i) := by
  induction n using Nat.strong_induction_on with
  | _ n ih =>
  intro i state hn hidx hdir hall hloc hfresh hresume
  rcases existing_cases present (dir.subnodes.drop i) with
    ⟨hnone, hmiss⟩ | ⟨before, node, after, hnodes, hbef, hfound, hexisting⟩
  · rw [reported_missing hmiss]
    intro hshown
    rw [hnone, hshown, List.append_nil] at hresume
    have hended := Resumes.read_nil hresume
    by_contra hsome
    -- the end is reached in the call that passed over the last subspace
    have hread := marfsReaddir_missing hmdal fuel hdir hspl hidx hloc hmiss state.2
    obtain ⟨last, -, hbeh⟩ := readBehind_spec hmdal hfuel
      (show ({ state.1 with location := nsOffsetMask } : Dhandle config σ).toDir = dir from hdir)
      (show nsOffsetMask ≠ nsOffsetMask ||| 1 by decide) state.2 .enoent
    rw [if_neg hsome, hbeh] at hread
    dsimp only at hread
    rw [hfresh, hshown, if_pos rfl] at hread
    simp only [dirStep, hread, List.head?_nil] at hended
    cases hended
  · have hread := marfsReaddir_found hmdal fuel hdir hall hspl hidx hloc hnodes hbef hfound
      state.2
    rw [hexisting, cons_append] at hresume
    obtain ⟨hent, hnext⟩ := Resumes.read_cons hresume
    obtain ⟨hafter, hcnt⟩ := drop_eq_append_cons hnodes
    rw [hnodes, reported_found hbef hfound]
    by_cases hfits : node.1.length < 256
    · rw [if_pos hfits] at hread
      have hstate : (dirStep mdal fuel state .read).2 =
          ({ state.1 with location := BitVec.ofNat 64 (i + before.length + 1) }, state.2) := by
        simp only [dirStep, hread]
      rw [hstate, ← hafter] at hnext
      have hrest := ih (dir.subnodes.length - (i + before.length + 1)) (by omega)
        (i + before.length + 1)
        ({ state.1 with location := BitVec.ofNat 64 (i + before.length + 1) }, state.2) rfl hcnt hdir
        hall rfl hfresh hnext
      exact ⟨hfits, hafter ▸ hrest⟩
    · rw [if_neg hfits] at hread
      simp only [dirStep, hread] at hent
      cases hent

end Faithful

/-! ## A directory with subspaces -/

/-- An MDAL over a directory of at most three entries, of which those that begin with `MDAL_` are filtered;
its handle is an index, and the namespaces at the paths `spaces` exist. -/
def indexMdal (entries : List (List Char)) (spaces : List (List Char)) : Mdal (Fin 4) where
  pathfilter := fun name => ['M', 'D', 'A', 'L', '_'].isPrefixOf name
  readdir := fun metahandle errno =>
    match entries.drop metahandle with
    | [] => (none, errno, metahandle)
    | name :: _ => (some name, errno, metahandle + 1)
  telldir := fun metahandle errno => (BitVec.ofNat 64 metahandle, errno, metahandle)
  seekdir := fun _ loc errno => (0, errno, Fin.ofNat 4 loc.toNat)
  rewinddir := fun _ errno => (0, errno, 0)
  statnamespace := fun _ path errno => if path ∈ spaces then (0, errno) else (-1, .enoent)

/-- A namespace with two subspaces. -/
def twoSpaces : MarfsConfig where
  mountpoint := "/m".toList
  rootns := 0
  ns
    | 1 => ⟨"r|/a".toList, 0, 0, 15, 15, 0, some 0, [], none, none⟩
    | 2 => ⟨"r|/b".toList, 0, 0, 15, 15, 0, some 0, [], none, none⟩
    | _ => ⟨"r|/.".toList, 0, 0, 15, 15, 0, none, [(['a'], 1), (['b'], 2)], none, none⟩

def twoSpacesRoot : Dir twoSpaces where
  ns := .table 0
  depth := 0
  fits := by decide
  linked := by
    intro node hnode
    rcases List.mem_cons.1 hnode with rfl | hnode
    · exact ⟨['r'], ['/', 'a'], rfl⟩
    · obtain rfl := List.mem_singleton.1 hnode
      exact ⟨['r'], ['/', 'b'], rfl⟩

def presentAt (config : MarfsConfig) (spaces : List (List Char)) (node : List Char × Nat) : Bool :=
  match configNsinfo (config.ns node.2).idstr with
  | some (_, path, _) => decide (path ∈ spaces)
  | none => false

theorem indexMdal_faithful {config : MarfsConfig} (dir : Dir config) (entries : List (List Char))
    (hlen : entries.length < 4) (spaces : List (List Char)) :
    Faithful dir (indexMdal entries spaces) (presentAt config spaces) entries
      (fun metahandle => entries.drop metahandle) where
  suffix := fun metahandle => drop_suffix _ _
  readdir_nil := by
    intro metahandle errno hleft
    exact ⟨metahandle, by simp only [indexMdal, hleft], hleft⟩
  readdir_cons := by
    intro metahandle errno name rest hleft
    have hlt : metahandle.val < entries.length := by
      have hrest := congrArg List.length hleft
      rw [length_drop, length_cons] at hrest
      omega
    have hnext : (metahandle + 1).val = metahandle.val + 1 := by
      rw [Fin.val_add, Nat.mod_eq_of_lt]
      · rfl
      · exact Nat.lt_of_le_of_lt hlt hlen
    refine ⟨metahandle + 1, by simp only [indexMdal, hleft], ?_⟩
    rw [hnext, ← drop_drop, hleft]
    rfl
  telldir := by
    intro metahandle errno
    refine ⟨BitVec.ofNat 64 metahandle, errno, metahandle, rfl, rfl,
      ofNat_and_nsOffsetMask (by omega), ?_⟩
    intro other errno
    refine ⟨errno, metahandle, ?_, rfl⟩
    have hsame : Fin.ofNat 4 (BitVec.ofNat 64 metahandle.val).toNat = metahandle := by
      apply Fin.ext
      rw [Fin.val_ofNat, BitVec.toNat_ofNat]
      omega
    simp only [indexMdal, hsame]
  rewinddir := fun _ errno => ⟨errno, 0, rfl, rfl⟩
  found := by
    intro node _ hpres repo path hinfo errno
    rw [presentAt, hinfo] at hpres
    simp only [indexMdal, if_pos (of_decide_eq_true hpres)]
  missing := by
    intro node _ hmiss repo path hinfo errno
    rw [presentAt, hinfo] at hmiss
    simp only [indexMdal, if_neg (of_decide_eq_false hmiss)]

/-! ## Handles are cursors -/

/-- Whatever calls are made on a freshly opened handle, it replies as a cursor over the listing of its
directory: the subspaces that exist, then the MDAL's entries that are shown, from any value told before and
from the start again, and an end without an `errno`.  This holds exactly of the directories that are no
namespace root, or whose subspaces are reported as they should. -/
theorem dirhandle_resumes_iff {config : MarfsConfig} {σ : Type} {dir : Dir config} {mdal : Mdal σ}
    {present : List Char × Nat → Bool} {entries : List (List Char)} {left : σ → List (List Char)}
    (hmdal : Faithful dir mdal present entries left) {fuel : Nat} (hfuel : entries.length < fuel)
    {metahandle : σ} (hfresh : left metahandle = entries) (errno : Errno) :
    (∀ calls, Resumes (dir.listing mdal present entries) (dir.listing mdal present entries) []
      (run (dirStep mdal fuel) (dir.opened metahandle, errno) calls)) ↔
      (dir.depth = 0 → Reported present (dir.visible mdal entries) dir.subnodes) := by
  constructor
  · intro hresumes hdepth
    by_cases hsplit : dir.Split
    · rw [Dir.listing_of_split hsplit] at hresumes
      exact reported_of_resumes hmdal hfuel hsplit _ 0 (dir.opened metahandle, errno) rfl
        (Nat.zero_le _) rfl rfl rfl hfresh hresumes
    · have hnone : dir.subnodes = [] := by
        by_contra hsome
        exact hsplit ⟨hdepth, fun hlength => hsome (List.length_eq_zero_iff.1 hlength)⟩
      rw [hnone]
      exact ⟨(fun _ h => nomatch h), (fun _ _ h => nomatch h)⟩
  · intro hreported calls
    exact (dirStep_simulates hmdal hfuel hreported).resumes calls
      (Ahead.start rfl rfl rfl hfresh) (fun _ h => nomatch h)

/-- With one subspace on disk and one missing, a file in the namespace and a directory of the MDAL. -/
theorem twoSpaces_resumes :
    (∀ calls, Resumes [['b'], ['f']] [['b'], ['f']] []
      (run (dirStep (indexMdal [['M', 'D', 'A', 'L', '_', 'r'], ['f']] [['/', 'b']]) 3)
        (twoSpacesRoot.opened 0, .unset) calls)) ↔
      (twoSpacesRoot.depth = 0 →
        Reported (presentAt twoSpaces [['/', 'b']]) [['f']] twoSpacesRoot.subnodes) :=
  dirhandle_resumes_iff (indexMdal_faithful twoSpacesRoot [['M', 'D', 'A', 'L', '_', 'r'], ['f']]
    (by decide) [['/', 'b']]) (by decide) rfl .unset

/-- No subspace is on disk yet, and the namespace holds nothing but a directory of the MDAL, so nothing is
to be listed.  The first call reaches the end with `ENOENT`. -/
theorem twoSpaces_enoent :
    Faithful twoSpacesRoot (indexMdal [['M', 'D', 'A', 'L', '_', 'r']] []) (presentAt twoSpaces [])
        [['M', 'D', 'A', 'L', '_', 'r']]
          (fun metahandle => [['M', 'D', 'A', 'L', '_', 'r']].drop metahandle) ∧
      twoSpacesRoot.listing (indexMdal [['M', 'D', 'A', 'L', '_', 'r']] []) (presentAt twoSpaces [])
        [['M', 'D', 'A', 'L', '_', 'r']] = [] ∧
      ¬ Resumes [] [] [] (run (dirStep (indexMdal [['M', 'D', 'A', 'L', '_', 'r']] []) 2)
        (twoSpacesRoot.opened 0, .unset) [.read]) := by
  refine ⟨indexMdal_faithful twoSpacesRoot _ (by decide) [], rfl, ?_⟩
  intro hresumes
  have hread : (dirStep (indexMdal [['M', 'D', 'A', 'L', '_', 'r']] []) 2
      (twoSpacesRoot.opened 0, .unset) .read).1 = .failed (.errno .enoent) := rfl
  have hended := hresumes.1
  rw [hread] at hended
  cases hended

end Marfs.Dirhandle
