import Marfs.Cstring.Strto
import Marfs.Hash.Lookup
import Marfs.Machine.SizeT

/-!
# Reference trees

The reference files of a namespace are spread over a tree of directories, by a hash of their names.
Its breadth, its depth, and how wide the directory names are printed make the names of its leaves,
which are the nodes of the hash table.
-/

namespace Marfs.Config

open Cstring Hash Machine List

/-- `numdigits_unsigned`, of a 64-bit value: it is compared with one power of ten after the other. -/
def numdigitsUnsigned (val : Nat) : Nat :=
  ((range' 1 19).find? fun digits => decide (val < 10 ^ digits)).getD 20

/-- How wide the name of a directory is printed. -/
def breadthdigits (refbreadth refdigits : Nat) : Nat :=
  let breadthdigits := numdigitsUnsigned refbreadth
  if refdigits > breadthdigits then refdigits else breadthdigits

/-- The index of a node at each depth, starting at the deepest level. -/
def refvalsLoop (refbreadth : Nat) : (curdepth tmpnode : Nat) → (refvals : List Nat) → List Nat
  | 0, _, refvals => refvals
  | curdepth + 1, tmpnode, refvals =>
    refvalsLoop refbreadth curdepth (tmpnode / refbreadth) (tmpnode % refbreadth :: refvals)

/-- The indexes of a node, from the top of the tree. -/
def refvals (refbreadth refdepth curnode : Nat) : List Nat :=
  refvalsLoop refbreadth refdepth curnode []

/-- The name of a directory as part of a path. -/
def refdir (breadthdigits refval : Nat) : List Char := padded breadthdigits refval ++ ['/']

/-- Print one directory after the other into what is left of the buffer. -/
def printRefpath (breadthdigits : Nat) :
    (refvals : List Nat) → (pathlenremaining : Nat) → Option (List Char)
  | [], _ => some []
  | refval :: refvals, pathlenremaining => do
    let dir := refdir breadthdigits refval
    if dir.length ≥ pathlenremaining then none
    else do
      let rest ← printRefpath breadthdigits refvals (pathlenremaining - dir.length)
      some (dir ++ rest)

section Table

variable (identifier : List Char → Id)

/-- A leaf of the tree. -/
def refnode (refbreadth refdepth refdigits curnode : Nat) : Option (HashNode Unit) := do
  let width := breadthdigits refbreadth refdigits
  let rpathlen := refdepth * (width + 1) + 1
  let name ← printRefpath width (refvals refbreadth refdepth curnode) rpathlen
  some { name := name, weight := 1, content := () }

/-- `config_genreftable`.  Without depth there is no path, and the name of the only node is never
written to its buffer: no result. -/
def configGenreftable (refbreadth refdepth refdigits : Nat) : Option (HashTable Unit) :=
  if refdepth = 0 then none
  else do
    let rnodecount := SizeT.wrap (refbreadth ^ refdepth)
    let rnodelist ← (List.range rnodecount).mapM (refnode refbreadth refdepth refdigits)
    hashInit identifier rnodelist false

end Table

/-! ## Directory names -/

theorem numdigitsUnsigned_pos (val : Nat) : 0 < numdigitsUnsigned val := by
  unfold numdigitsUnsigned
  cases hfind : (range' 1 19).find? fun digits => decide (val < 10 ^ digits) with
  | none => exact Nat.succ_pos 19
  | some digits =>
    have hmem := List.mem_of_find?_eq_some hfind
    rw [mem_range'_1] at hmem
    exact hmem.1

/-- As many digits are enough for the value. -/
theorem lt_numdigitsUnsigned {val : Nat} (h : val < SizeT.modulus) : val < 10 ^ numdigitsUnsigned val := by
  unfold numdigitsUnsigned
  cases hfind : (range' 1 19).find? fun digits => decide (val < 10 ^ digits) with
  | none => exact h.trans (by decide)
  | some digits =>
    have hlt := List.find?_some hfind
    exact of_decide_eq_true hlt

theorem numdigitsUnsigned_le (refbreadth refdigits : Nat) :
    numdigitsUnsigned refbreadth ≤ breadthdigits refbreadth refdigits := by
  unfold breadthdigits
  dsimp only
  split
  · omega
  · exact le_refl _

variable {refbreadth refval width n : Nat}

theorem lt_breadthdigits (h : refbreadth < SizeT.modulus) (refdigits : Nat) (hlt : refval < refbreadth) :
    refval < 10 ^ breadthdigits refbreadth refdigits := by
  have hpow := Nat.pow_le_pow_right (by decide : 0 < 10)
    (numdigitsUnsigned_le refbreadth refdigits)
  exact (hlt.trans (lt_numdigitsUnsigned h)).trans_le hpow

theorem length_padded (hwidth : 0 < width) (h : n < 10 ^ width) : (padded width n).length = width := by
  have hle : (decimal n).length ≤ width := (Nat.length_toDigits_le_iff (by decide) hwidth).2 h
  rw [padded, length_append, length_replicate]
  omega

theorem length_refdir (hwidth : 0 < width) (h : n < 10 ^ width) : (refdir width n).length = width + 1 := by
  rw [refdir, length_append, length_padded hwidth h]
  rfl

theorem separator_not_mem_padded (width n : Nat) : '/' ∉ padded width n := fun h =>
  absurd (isDigit_of_mem_padded h) (by decide)

/-- A path of directory names. -/
def refpath (width : Nat) (refvals : List Nat) : List Char := refvals.flatMap (refdir width)

/-- The buffer has room for all directories of the path. -/
theorem printRefpath_eq (hwidth : 0 < width) {refvals : List Nat}
    (hvals : ∀ refval ∈ refvals, refval < 10 ^ width) {remaining : Nat}
    (hrem : refvals.length * (width + 1) < remaining) :
    printRefpath width refvals remaining = some (refpath width refvals) := by
  induction refvals generalizing remaining with
  | nil => rfl
  | cons refval refvals ih =>
    have hlen := length_refdir hwidth (hvals refval mem_cons_self)
    rw [length_cons, Nat.succ_mul] at hrem
    have hrest := ih (fun v hv => hvals v (mem_cons_of_mem refval hv))
      (by omega : refvals.length * (width + 1) < remaining - (width + 1))
    rw [printRefpath, hlen, if_neg (by omega), hrest]
    rfl

/-- The directories of a path can be told apart: no name has a separator in it. -/
theorem refpath_inj {width' : Nat} {refvals refvals' : List Nat}
    (h : refpath width refvals = refpath width' refvals') :
    refvals = refvals' ∧ (refvals.map (padded width) = refvals'.map (padded width')) := by
  induction refvals generalizing refvals' with
  | nil =>
    cases refvals' with
    | nil => exact ⟨rfl, rfl⟩
    | cons refval' refvals' => simp [refpath, refdir] at h
  | cons refval refvals ih =>
    cases refvals' with
    | nil => simp [refpath, refdir] at h
    | cons refval' refvals' =>
      simp only [refpath, refdir, flatMap_cons, append_assoc, singleton_append] at h
      have hdir : padded width refval = padded width' refval' := by
        have htake := congrArg (takeWhile (· != '/')) h
        have hnames : ∀ w n, ∀ c ∈ padded w n, (c != '/') = true := by
          intro w n c hc
          have hne : c ≠ '/' := fun heq => separator_not_mem_padded w n (heq ▸ hc)
          simp [hne]
        rw [takeWhile_append_of_pos (hnames _ _), takeWhile_append_of_pos (hnames _ _)]
          at htake
        simpa using htake
      have hval : refval = refval' := by
        have hread := congrArg (Nat.ofDigitChars 10 · 0) hdir
        simpa using hread
      rw [hdir] at h
      have hrest := cons_injective (append_cancel_left h)
      obtain ⟨hvals, hnames⟩ := ih hrest
      refine ⟨?_, ?_⟩
      · rw [hval, hvals]
      · rw [map_cons, map_cons, hdir, hnames]

/-! ## Nodes -/

theorem length_refvalsLoop (refbreadth curdepth tmpnode : Nat) (vals : List Nat) :
    (refvalsLoop refbreadth curdepth tmpnode vals).length = curdepth + vals.length := by
  induction curdepth generalizing tmpnode vals with
  | zero => exact (Nat.zero_add _).symm
  | succ curdepth ih =>
    rw [refvalsLoop, ih, length_cons]
    omega

@[simp] theorem length_refvals (refbreadth refdepth curnode : Nat) :
    (refvals refbreadth refdepth curnode).length = refdepth := length_refvalsLoop _ _ _ _

theorem refvalsLoop_lt (hbr : 0 < refbreadth) (curdepth tmpnode : Nat) {vals : List Nat}
    (hvals : ∀ refval ∈ vals, refval < refbreadth) :
    ∀ refval ∈ refvalsLoop refbreadth curdepth tmpnode vals, refval < refbreadth := by
  induction curdepth generalizing tmpnode vals with
  | zero => exact hvals
  | succ curdepth ih =>
    apply ih
    intro refval hmem
    rcases List.mem_cons.1 hmem with rfl | hmem
    · exact Nat.mod_lt _ hbr
    · exact hvals refval hmem

theorem refvals_lt (hbr : 0 < refbreadth) {refdepth curnode : Nat}
    (h : refval ∈ refvals refbreadth refdepth curnode) : refval < refbreadth :=
  refvalsLoop_lt hbr refdepth curnode (fun _ hmem => absurd hmem not_mem_nil) refval h

def leafPath (refbreadth refdepth refdigits curnode : Nat) : List Char :=
  refpath (breadthdigits refbreadth refdigits) (refvals refbreadth refdepth curnode)

theorem refnode_eq (hbr : 0 < refbreadth) (hsize : refbreadth < SizeT.modulus)
    (refdepth refdigits curnode : Nat) :
    refnode refbreadth refdepth refdigits curnode =
      some { name := leafPath refbreadth refdepth refdigits curnode, weight := 1, content := () } := by
  have hwidth := (numdigitsUnsigned_pos refbreadth).trans_le
    (numdigitsUnsigned_le refbreadth refdigits)
  have hprint := printRefpath_eq hwidth
    (fun refval hmem => lt_breadthdigits hsize refdigits (refvals_lt hbr hmem))
    (by rw [length_refvals]; omega :
      (refvals refbreadth refdepth curnode).length * (breadthdigits refbreadth refdigits + 1) <
        refdepth * (breadthdigits refbreadth refdigits + 1) + 1)
  rw [refnode, hprint]
  rfl

theorem leafPath_inj {b d g b' d' g' n' : Nat} (hb : 0 < b) (hsize : b < SizeT.modulus) (hd : 0 < d)
    (hb' : 0 < b') (hsize' : b' < SizeT.modulus) :
    leafPath b d g n = leafPath b' d' g' n' ↔
      refvals b d n = refvals b' d' n' ∧ breadthdigits b g = breadthdigits b' g' := by
  constructor
  · intro h
    obtain ⟨hvals, hnames⟩ := refpath_inj h
    refine ⟨hvals, ?_⟩
    cases hcons : refvals b d n with
    | nil =>
      have hlen := length_refvals b d n
      rw [hcons] at hlen
      exact absurd hlen hd.ne
    | cons refval vals =>
      have hmem : refval ∈ refvals b d n := by
        rw [hcons]
        exact mem_cons_self
      have hmem' : refval ∈ refvals b' d' n' := hvals ▸ hmem
      rw [← hvals, hcons, map_cons, map_cons] at hnames
      have hlen := congrArg List.length (List.cons.inj hnames).1
      rwa [length_padded ((numdigitsUnsigned_pos b).trans_le (numdigitsUnsigned_le b g))
          (lt_breadthdigits hsize g (refvals_lt hb hmem)),
        length_padded ((numdigitsUnsigned_pos b').trans_le (numdigitsUnsigned_le b' g'))
          (lt_breadthdigits hsize' g' (refvals_lt hb' hmem'))] at hlen
  · rintro ⟨hvals, hwidth⟩
    rw [leafPath, leafPath, hvals, hwidth]

/-! ## Tables -/

section Spec

variable {refbreadth refdepth refdigits : Nat}

def leaf (refbreadth refdepth refdigits curnode : Nat) : HashNode Unit :=
  { name := leafPath refbreadth refdepth refdigits curnode, weight := 1, content := () }

theorem refnode_leaf (hbr : 0 < refbreadth) (hsize : refbreadth < SizeT.modulus) (count : Nat) :
    (List.range count).mapM (refnode refbreadth refdepth refdigits) =
      some ((List.range count).map (leaf refbreadth refdepth refdigits)) := by
  have hleaf : refnode refbreadth refdepth refdigits =
      fun curnode => pure (leaf refbreadth refdepth refdigits curnode) := by
    funext curnode
    exact refnode_eq hbr hsize refdepth refdigits curnode
  rw [hleaf]
  exact mapM_pure

variable {identifier : List Char → Id} {table : HashTable Unit}

theorem configGenreftable_leaves (hsize : refbreadth < SizeT.modulus)
    (h : configGenreftable identifier refbreadth refdepth refdigits = some table) :
    0 < refbreadth ∧ 0 < refdepth ∧ hashInit identifier
      ((List.range (SizeT.wrap (refbreadth ^ refdepth))).map
        (leaf refbreadth refdepth refdigits)) false = some table := by
  unfold configGenreftable at h
  split at h
  · cases h
  · next hdep =>
    obtain ⟨nodes, hnodes, h⟩ := Option.bind_eq_some_iff.1 h
    have hbr : 0 < refbreadth := by
      refine Nat.pos_of_ne_zero fun hzero => ?_
      subst hzero
      rw [Nat.zero_pow (Nat.pos_of_ne_zero hdep)] at hnodes
      obtain rfl : [] = nodes := Option.some.inj hnodes
      cases h
    rw [refnode_leaf hbr hsize] at hnodes
    obtain rfl := Option.some.inj hnodes
    exact ⟨hbr, Nat.pos_of_ne_zero hdep, h⟩

/-- A tree that has leaves has a table. -/
theorem configGenreftable_isSome (identifier : List Char → Id) (hbr : 0 < refbreadth) (hdep : 0 < refdepth)
    (hcnt : refbreadth ^ refdepth < SizeT.modulus) (refdigits : Nat) :
    (configGenreftable identifier refbreadth refdepth refdigits).isSome := by
  have hsize : refbreadth < SizeT.modulus :=
    (Nat.le_self_pow hdep.ne' refbreadth).trans_lt hcnt
  have hpos : 0 < refbreadth ^ refdepth := Nat.pow_pos hbr
  unfold configGenreftable
  rw [if_neg hdep.ne', SizeT.wrap_of_lt hcnt]
  dsimp only
  rw [refnode_leaf hbr hsize]
  apply hashInit_isSome
  · intro node hmem
    obtain ⟨curnode, -, rfl⟩ := List.mem_map.1 hmem
    exact Int.one_nonneg
  · exact .inr ⟨leaf refbreadth refdepth refdigits 0,
      List.mem_map.2 ⟨0, List.mem_range.2 hpos, rfl⟩, Int.one_pos⟩

theorem hashLookup_leaf (hsize : refbreadth < SizeT.modulus)
    (h : configGenreftable identifier refbreadth refdepth refdigits = some table) (target : List Char) :
    ∃ retval nodenum, hashLookup identifier (table.vnodecount + 1) table target =
        some (retval, nodenum) ∧ 0 ≤ retval ∧
      table.nodes[nodenum]? = some (leaf refbreadth refdepth refdigits nodenum) := by
  obtain ⟨-, -, hinit⟩ := configGenreftable_leaves hsize h
  obtain ⟨retval, nodenum, node, hlook, hnode, hpres, habsent⟩ :=
    hashLookup_hashInit hinit (vnodecount_pos hinit) target (Nat.lt_succ_self _)
  refine ⟨retval, nodenum, hlook, ?_, ?_⟩
  · by_cases hthere : table.Present (identifier target) target
    · rw [(hpres hthere).1]
    · rw [(habsent hthere).1]
      decide
  · rw [(hashInit_valid hinit).2]
    rw [List.getElem?_map] at hnode ⊢
    obtain ⟨i, hi, -⟩ := Option.map_eq_some_iff.1 hnode
    obtain ⟨hlt, hval⟩ := List.getElem?_eq_some_iff.1 hi
    rw [getElem_range] at hval
    rw [hi, ← hval]
    rfl

end Spec

end Marfs.Config
