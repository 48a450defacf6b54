import Marfs.Config.Reftable
import Marfs.Tagging.FtagString

/-!
# The paths of repacked files

A file is repacked at a reference path that the caller gives, and its marker is put next to it.  All
paths are made of FTAGs: the name of the file comes from the FTAG alone, its directory from a table of
the names of all directories, which depends on the reference tree.
-/

namespace Marfs.Repack

open Config Cstring Hash Machine Tagging

/-! ## Names -/

def sanstream (streamid : List Char) : List Char :=
  streamid.map fun parse => if parse = '|' then '#' else parse

def ftagMetatgt (ftag : Ftag) : List Char :=
  ftag.ctag ++ '|' :: (sanstream ftag.streamid ++ '|' :: decimal ftag.fileno)

def ftagRepackmarker (ftag : Ftag) : List Char :=
  ftag.ctag ++ '|' :: (sanstream ftag.streamid ++ '|' :: (decimal ftag.fileno ++ "REPACK".toList))

/-- The length of the parent directory of a path: what comes up to the last separator.  `rparse` is
what is left of the path behind its first `pos` characters. -/
def rparentlen : (rparse : List Char) → (pos rparent : Nat) → Nat
  | [], _, rparent => rparent
  | c :: rparse, pos, rparent => rparentlen rparse (pos + 1) (if c = '/' then pos + 1 else rparent)

/-! ## Paths -/

/-- `marfs_ms`: the reference tree of a namespace, and its table. -/
structure Metascheme (identifier : List Char → Id) where
  refbreadth : Int
  refdepth : Int
  refdigits : Int
  reftable : HashTable Unit
  generated : configGenreftable identifier (toUll refbreadth) (toUll refdepth) (toUll refdigits) =
    some reftable

section Paths

variable (identifier : List Char → Id)

def datastreamGenrpath (ftag : Ftag) (reftable : HashTable Unit) : Option (List Char) := do
  let refname := ftagMetatgt ftag
  let (retval, nodenum) ← hashLookup identifier (reftable.vnodecount + 1) reftable refname
  if retval < 0 then none
  else do
    let noderef ← reftable.nodes[nodenum]?
    some (noderef.name ++ refname)

def repackmarkertgt (rpath : Option (List Char)) (ftag : Ftag) (ms : Metascheme identifier) :
    Option (List Char) := do
  let refpath ←
    match rpath with
    | none => datastreamGenrpath identifier ftag ms.reftable
    | some rpath => some rpath
  some (refpath.take (rparentlen refpath 0 0) ++ ftagRepackmarker ftag)

/-- The table `process_repack` looks paths up in: the one of the namespace, or one that is generated
for the reference tree of the first file of the list. -/
def opReftable (ms : Metascheme identifier) (ftag : Ftag) : Option (HashTable Unit) :=
  if ftag.refbreadth = ms.refbreadth ∧ ftag.refdepth = ms.refdepth ∧ ftag.refdigits = ms.refdigits then
    some ms.reftable
  else
    -- we must generate a fresh ref table, based on FTAG values
    configGenreftable identifier (toUll ftag.refbreadth) (toUll ftag.refdepth)
      (toUll ftag.refdigits)

/-- The path `process_repack` passes to `datastream_repack`, where `head` is the FTAG of the first
file of the list. -/
def opReftgt (ms : Metascheme identifier) (head ftag : Ftag) : Option (List Char) := do
  let reftable ← opReftable identifier ms head
  datastreamGenrpath identifier ftag reftable

end Paths

/-! ## Where paths lead -/

section Leaves

variable {identifier : List Char → Id}

theorem toUll_lt (n : Int) : toUll n < SizeT.modulus := by
  have hnonneg := Int.emod_nonneg n (by decide : (2 : Int) ^ 64 ≠ 0)
  have hlt := Int.emod_lt_of_pos n (by decide : (0 : Int) < 2 ^ 64)
  have hmodulus : (SizeT.modulus : Int) = 2 ^ 64 := rfl
  unfold toUll
  omega

def leafOf (identifier : List Char → Id) (refbreadth refdepth : Int) (reftable : HashTable Unit)
    (refname : List Char) : Option (List Nat) := do
  let (_, nodenum) ← hashLookup identifier (reftable.vnodecount + 1) reftable refname
  some (refvals (toUll refbreadth) (toUll refdepth) nodenum)

theorem datastreamGenrpath_eq {breadth depth digits : Int} {reftable : HashTable Unit}
    (h : configGenreftable identifier (toUll breadth) (toUll depth) (toUll digits) = some reftable)
    (ftag : Ftag) :
    ∃ nodenum, leafOf identifier breadth depth reftable (ftagMetatgt ftag) =
        some (refvals (toUll breadth) (toUll depth) nodenum) ∧
      datastreamGenrpath identifier ftag reftable =
        some (leafPath (toUll breadth) (toUll depth) (toUll digits) nodenum ++ ftagMetatgt ftag) := by
  obtain ⟨retval, nodenum, hlook, hretval, hnode⟩ :=
    hashLookup_leaf (toUll_lt breadth) h (ftagMetatgt ftag)
  refine ⟨nodenum, ?_, ?_⟩
  · rw [leafOf, hlook]
    rfl
  · rw [datastreamGenrpath, hlook]
    dsimp only [Option.bind_eq_bind, Option.bind_some]
    rw [if_neg (by omega), hnode]
    rfl

/-- The table of a list of files is that of the reference tree of its first file. -/
theorem opReftable_generated {ms : Metascheme identifier} {head : Ftag} {reftable : HashTable Unit}
    (h : opReftable identifier ms head = some reftable) :
    configGenreftable identifier (toUll head.refbreadth) (toUll head.refdepth)
      (toUll head.refdigits) = some reftable := by
  unfold opReftable at h
  split at h
  · next heq =>
    obtain ⟨hbr, hdep, hdig⟩ := heq
    rw [hbr, hdep, hdig, ← h]
    exact ms.generated
  · exact h

/-- The indexes of the directories of the path that `process_repack` passes on. -/
def opLeaf (ms : Metascheme identifier) (head ftag : Ftag) : Option (List Nat) := do
  let reftable ← opReftable identifier ms head
  leafOf identifier head.refbreadth head.refdepth reftable (ftagMetatgt ftag)

/-- The reference tree of the files and that of the namespace lead the name of the file into
directories with the same indexes, and print them alike. -/
structure SameDirectories (ms : Metascheme identifier) (head ftag : Ftag) : Prop where
  indexes : opLeaf ms head ftag =
    leafOf identifier ms.refbreadth ms.refdepth ms.reftable (ftagMetatgt ftag)
  width : breadthdigits (toUll head.refbreadth) (toUll head.refdigits) =
    breadthdigits (toUll ms.refbreadth) (toUll ms.refdigits)

/-- The path in the tree of the files is the one in the tree of the namespace exactly if its
directories are. -/
theorem genrpath_eq_opReftgt_iff {ms : Metascheme identifier} {head ftag : Ftag} {path : List Char}
    (h : opReftgt identifier ms head ftag = some path) :
    datastreamGenrpath identifier ftag ms.reftable = some path ↔ SameDirectories ms head ftag := by
  obtain ⟨reftable, hreftable, h⟩ := Option.bind_eq_some_iff.1 h
  have hgenerated := opReftable_generated hreftable
  obtain ⟨nodenum, hleaf, hpath⟩ := datastreamGenrpath_eq hgenerated ftag
  obtain ⟨nodenum', hleaf', hpath'⟩ := datastreamGenrpath_eq ms.generated ftag
  obtain ⟨hbr, hdep, -⟩ := configGenreftable_leaves (toUll_lt _) hgenerated
  obtain ⟨hbr', -, -⟩ := configGenreftable_leaves (toUll_lt _) ms.generated
  have hop : opLeaf ms head ftag =
      some (refvals (toUll head.refbreadth) (toUll head.refdepth) nodenum) := by
    rw [opLeaf, hreftable]
    exact hleaf
  rw [hpath] at h
  obtain rfl := Option.some.inj h
  rw [hpath', Option.some_inj, List.append_left_inj, eq_comm,
    leafPath_inj hbr (toUll_lt _) hdep hbr' (toUll_lt _)]
  constructor
  · rintro ⟨hvals, hwidth⟩
    refine ⟨?_, hwidth⟩
    rw [hop, hleaf', hvals]
  · rintro ⟨hindexes, hwidth⟩
    rw [hop, hleaf'] at hindexes
    exact ⟨Option.some.inj hindexes, hwidth⟩

end Leaves

end Marfs.Repack
