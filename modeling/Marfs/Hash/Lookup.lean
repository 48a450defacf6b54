import Marfs.Search.Bracket
import Marfs.Hash.Table

/-!
# Hash lookups

The virtual nodes of a table that `hash_init` has built are sorted by their identifiers, so the
binary search brackets the identifier of the target; and the nodes with that very identifier are next
to each other, so the search of the surroundings of a collision sees all of them.
-/

namespace Marfs.Hash

open Cstring Marfs.Search List

variable {α : Type} {identifier : List Char → Id} {table : HashTable α} {tid : Id}
  {target : List Char}

/-! ## Identifiers -/

/-- An identifier as a number of 128 bits. -/
def Id.value (id : Id) : Nat := id.hi.toNat * 2 ^ 64 + id.lo.toNat

theorem Id.value_inj {idA idB : Id} : idA.value = idB.value ↔ idA = idB := by
  refine ⟨fun h => ?_, fun h => congrArg _ h⟩
  obtain ⟨hi, lo⟩ := idA
  obtain ⟨hi', lo'⟩ := idB
  have hlo := lo.toNat_lt
  have hlo' := lo'.toNat_lt
  unfold value at h
  simp only at h
  have hhi : hi = hi' := UInt64.toNat_inj.1 (by omega)
  have hlo : lo = lo' := UInt64.toNat_inj.1 (by omega)
  rw [hhi, hlo]

theorem compareID_cases (idA idB : Id) :
    idA.value < idB.value ∧ compareID idA idB = -1 ∨ idA = idB ∧ compareID idA idB = 0 ∨
      idB.value < idA.value ∧ compareID idA idB = 1 := by
  have hlo := idA.lo.toNat_lt
  have hlo' := idB.lo.toNat_lt
  unfold compareID Id.value
  simp only [gt_iff_lt, UInt64.lt_iff_toNat_lt]
  split
  · exact .inr (.inr ⟨by omega, rfl⟩)
  · split
    · exact .inl ⟨by omega, rfl⟩
    · split
      · exact .inr (.inr ⟨by omega, rfl⟩)
      · split
        · exact .inl ⟨by omega, rfl⟩
        · refine .inr (.inl ⟨Id.value_inj.1 ?_, rfl⟩)
          unfold Id.value
          omega

theorem compareNodes_le {nodeA nodeB : VirtualNode} : compareNodes nodeA nodeB ≤ 0 ↔
    nodeA.id.value < nodeB.id.value ∨
      nodeA.id.value = nodeB.id.value ∧ nodeA.nodenum ≤ nodeB.nodenum := by
  unfold compareNodes
  rcases compareID_cases nodeA.id nodeB.id with ⟨hlt, heq⟩ | ⟨hid, heq⟩ | ⟨hlt, heq⟩
  · rw [heq]
    simp [hlt]
  · rw [heq, hid]
    simp only [ne_eq, not_true_eq_false, if_false, lt_irrefl, true_and, false_or]
    split
    · simp only [Left.neg_nonpos_iff, Int.one_nonneg, true_iff]
      omega
    · split
      · simp only [le_refl, true_iff]
        omega
      · simp only [Int.reduceLE, false_iff]
        omega
  · rw [heq]
    simp only [ne_eq, Int.one_ne_zero, not_false_eq_true, if_true, Int.reduceLE, false_iff]
    omega

instance : Std.Total fun nodeA nodeB : VirtualNode => compareNodes nodeA nodeB ≤ 0 where
  total nodeA nodeB := by
    simp only [compareNodes_le]
    omega

instance : IsTrans VirtualNode fun nodeA nodeB => compareNodes nodeA nodeB ≤ 0 where
  trans nodeA nodeB nodeC := by
    simp only [compareNodes_le]
    omega

/-! ## Tables -/

/-- What a lookup needs of a table. -/
structure HashTable.Valid (table : HashTable α) : Prop where
  vnodecount : table.vnodes.length = table.vnodecount
  sorted : table.vnodes.Pairwise fun nodeA nodeB => nodeA.id.value ≤ nodeB.id.value
  owned : ∀ vnode ∈ table.vnodes, vnode.nodenum < table.nodes.length

variable {len curnode ratio : Nat} {vnodes : List VirtualNode} {directlookup : Bool}
  {nodes : List (HashNode α)}

theorem weightedVnodes_spec {name : List Char} {l : List Nat}
    (h : l.mapM (weightedVnode identifier len curnode name) = some vnodes) :
    vnodes.length = l.length ∧ ∀ vnode ∈ vnodes, vnode.nodenum = curnode := by
  induction l generalizing vnodes with
  | nil =>
    obtain rfl : [] = vnodes := Option.some.inj h
    exact ⟨rfl, fun _ hv => absurd hv not_mem_nil⟩
  | cons i l ih =>
    rw [mapM_cons] at h
    obtain ⟨vnode, hvn, h⟩ := Option.bind_eq_some_iff.1 h
    obtain ⟨vnodes', hvns, h⟩ := Option.bind_eq_some_iff.1 h
    obtain rfl : vnode :: vnodes' = vnodes := Option.some.inj h
    obtain ⟨hlen, howned⟩ := ih hvns
    refine ⟨congrArg (· + 1) hlen, fun vnode' hv => ?_⟩
    rcases List.mem_cons.1 hv with rfl | hv
    · unfold weightedVnode at hvn
      simp only at hvn
      split at hvn
      · cases hvn
      · exact (congrArg VirtualNode.nodenum (Option.some.inj hvn)).symm
    · exact howned vnode' hv

def vnodesOf (directlookup : Bool) (ratio : Nat) (node : HashNode α) : Nat :=
  if node.weight ≠ 0 then node.weight.toNat * ratio else if directlookup then 1 else 0

variable {node : HashNode α} {totalweight i fuel max : Nat}

theorem nodeVnodes_spec (h : nodeVnodes identifier directlookup ratio len curnode node = some vnodes) :
    vnodes.length = vnodesOf directlookup ratio node ∧
      ∀ vnode ∈ vnodes, vnode.nodenum = curnode := by
  unfold nodeVnodes at h
  unfold vnodesOf
  split at h
  · next hwt =>
    rw [if_pos hwt]
    obtain ⟨hlen, howned⟩ := weightedVnodes_spec h
    exact ⟨by rw [hlen, length_range], howned⟩
  · next hwt =>
    rw [if_neg hwt]
    split at h
    · next hlook =>
      obtain rfl := Option.some.inj h
      rw [if_pos hlook]
      refine ⟨rfl, fun vnode hv => ?_⟩
      rw [List.mem_singleton.1 hv]
    · next hlook =>
      obtain rfl := Option.some.inj h
      rw [if_neg hlook]
      exact ⟨rfl, fun _ hv => absurd hv not_mem_nil⟩

theorem createVnodes_owned (h : createVnodes identifier directlookup ratio len curnode nodes = some vnodes) :
    ∀ vnode ∈ vnodes, vnode.nodenum < curnode + nodes.length := by
  induction nodes generalizing curnode vnodes with
  | nil =>
    obtain rfl : [] = vnodes := Option.some.inj h
    exact fun _ hv => absurd hv not_mem_nil
  | cons node nodes ih =>
    obtain ⟨first, hfst, h⟩ := Option.bind_eq_some_iff.1 h
    obtain ⟨rest, hrest, h⟩ := Option.bind_eq_some_iff.1 h
    obtain rfl : first ++ rest = vnodes := Option.some.inj h
    intro vnode hv
    rw [length_cons]
    rcases List.mem_append.1 hv with hv | hv
    · have howned := (nodeVnodes_spec hfst).2 vnode hv
      omega
    · have howned := ih hrest vnode hv
      omega

theorem createVnodes_length {tally tally' : Tally} (htally : gather nodes tally = some tally')
    (h : createVnodes identifier directlookup ratio len curnode nodes = some vnodes) :
    vnodes.length + (ratio * tally.totalweight + if directlookup then tally.zerocount else 0) =
      ratio * tally'.totalweight + if directlookup then tally'.zerocount else 0 := by
  induction nodes generalizing curnode vnodes tally with
  | nil =>
    obtain rfl : [] = vnodes := Option.some.inj h
    obtain rfl : tally = tally' := Option.some.inj htally
    exact Nat.zero_add _
  | cons node nodes ih =>
    obtain ⟨first, hfst, h⟩ := Option.bind_eq_some_iff.1 h
    obtain ⟨rest, hrest, h⟩ := Option.bind_eq_some_iff.1 h
    obtain rfl : first ++ rest = vnodes := Option.some.inj h
    rw [gather] at htally
    split at htally
    · cases htally
    · have hlen := (nodeVnodes_spec hfst).1
      have ih := ih htally hrest
      unfold vnodesOf at hlen
      rw [length_append, hlen, ← ih]
      simp only [Nat.mul_add]
      by_cases hwt : node.weight = 0
      · simp only [hwt, ne_eq, not_true_eq_false, if_false, if_true, Int.toNat_zero]
        split
        · omega
        · omega
      · simp only [hwt, ne_eq, not_false_eq_true, if_true, if_false]
        rw [Nat.mul_comm node.weight.toNat]
        omega

theorem hashInit_valid (h : hashInit identifier nodes directlookup = some table) :
    table.Valid ∧ table.nodes = nodes := by
  obtain ⟨tally, htally, h⟩ := Option.bind_eq_some_iff.1 h
  split at h
  · cases h
  · obtain ⟨vnodes, hvns, h⟩ := Option.bind_eq_some_iff.1 h
    obtain rfl := Option.some.inj h
    have hlen := createVnodes_length htally hvns
    have howned := createVnodes_owned hvns
    refine ⟨⟨?_, ?_, fun vnode hv => ?_⟩, rfl⟩
    · rw [length_insertionSort]
      simpa using hlen
    · refine (pairwise_insertionSort _ vnodes).imp fun {nodeA nodeB} hle => ?_
      rw [compareNodes_le] at hle
      omega
    · have hv' := (mem_insertionSort _).1 hv
      simpa using howned vnode hv'

theorem gather_bounds (hwt : ∀ node ∈ nodes, 0 ≤ node.weight) (tally : Tally) :
    ∃ tally', gather nodes tally = some tally' ∧ tally.totalweight ≤ tally'.totalweight ∧
      tally.maxname ≤ tally'.maxname ∧ ∀ node ∈ nodes,
        node.weight.toNat ≤ tally'.totalweight ∧ node.name.length ≤ tally'.maxname := by
  induction nodes generalizing tally with
  | nil => exact ⟨tally, rfl, le_refl _, le_refl _, fun _ h => absurd h not_mem_nil⟩
  | cons node nodes ih =>
    have hnode := hwt node mem_cons_self
    obtain ⟨tally', hgather, htotal, hmaxname, hbnds⟩ :=
      ih (fun node' hmem => hwt node' (mem_cons_of_mem node hmem))
        { totalweight := tally.totalweight + node.weight.toNat
          zerocount := if node.weight = 0 then tally.zerocount + 1 else tally.zerocount
          maxname := max tally.maxname node.name.length }
    dsimp only at htotal hmaxname
    refine ⟨tally', ?_, by omega, by omega, fun node' hmem => ?_⟩
    · rw [gather, if_neg (by omega)]
      exact hgather
    · rcases List.mem_cons.1 hmem with rfl | hmem
      · exact ⟨by omega, by omega⟩
      · exact hbnds node' hmem

/-- The buffer is long enough for the names of all virtual nodes of a node. -/
theorem nodeVnodes_isSome (identifier : List Char → Id) (directlookup : Bool) (curnode : Nat)
    (hwt : node.weight.toNat ≤ totalweight)
    (hlen : node.name.length + (decimal (totalweight * ratio)).length + 1 < len) :
    ∃ vnodes, nodeVnodes identifier directlookup ratio len curnode node = some vnodes := by
  unfold nodeVnodes
  split
  · have hbound : ∀ i ∈ List.range (node.weight.toNat * ratio), i ≤ totalweight * ratio := by
      intro i hi
      have hle := Nat.mul_le_mul_right ratio hwt
      have hlt := List.mem_range.1 hi
      omega
    generalize List.range (node.weight.toNat * ratio) = l at hbound
    induction l with
    | nil => exact ⟨[], rfl⟩
    | cons i l ih =>
      obtain ⟨vnodes, hvns⟩ := ih fun j hj => hbound j (mem_cons_of_mem i hj)
      have hdig := length_decimal_mono (hbound i mem_cons_self)
      have hfits : ¬ (node.name ++ '-' :: decimal i).length ≥ len := by
        rw [length_append, length_cons]
        omega
      refine ⟨{ id := identifier (node.name ++ '-' :: decimal i), nodenum := curnode } :: vnodes, ?_⟩
      rw [mapM_cons, weightedVnode, if_neg hfits, hvns]
      rfl
  · split
    · exact ⟨_, rfl⟩
    · exact ⟨_, rfl⟩

theorem createVnodes_isSome (identifier : List Char → Id) (directlookup : Bool)
    (hnodes : ∀ node ∈ nodes, node.weight.toNat ≤ totalweight ∧
      node.name.length + (decimal (totalweight * ratio)).length + 1 < len) (curnode : Nat) :
    ∃ vnodes, createVnodes identifier directlookup ratio len curnode nodes = some vnodes := by
  induction nodes generalizing curnode with
  | nil => exact ⟨[], rfl⟩
  | cons node nodes ih =>
    obtain ⟨hwt, hlen⟩ := hnodes node mem_cons_self
    obtain ⟨vnodes, hvns⟩ := nodeVnodes_isSome identifier directlookup curnode hwt hlen
    obtain ⟨rest, hrest⟩ := ih (fun node' hmem => hnodes node' (mem_cons_of_mem node hmem))
      (curnode + 1)
    refine ⟨vnodes ++ rest, ?_⟩
    rw [createVnodes, hvns, hrest]
    rfl

theorem weightratio_pos (totalweight : Nat) : 0 < weightratio totalweight := by
  unfold weightratio
  split
  · split
    · exact Nat.succ_pos _
    · next hmod =>
      have hmul := Nat.div_add_mod targetNodeCount totalweight
      have htgt : 0 < targetNodeCount := by decide
      refine Nat.pos_of_ne_zero fun hzero => ?_
      rw [hzero, Nat.mul_zero] at hmul
      omega
  · exact Nat.one_pos

theorem hashInit_isSome (identifier : List Char → Id) (hwt : ∀ node ∈ nodes, 0 ≤ node.weight)
    (hpos : directlookup = true ∨ ∃ node ∈ nodes, 0 < node.weight) :
    (hashInit identifier nodes directlookup).isSome := by
  obtain ⟨tally, htally, -, -, hbnds⟩ :=
    gather_bounds hwt { totalweight := 0, zerocount := 0, maxname := 0 }
  have hacc : ¬ (tally.totalweight = 0 ∧ directlookup = false) := by
    rintro ⟨htotal, hlook⟩
    rcases hpos with hdirect | ⟨node, hmem, hnode⟩
    · rw [hdirect] at hlook
      cases hlook
    · have hle := (hbnds node hmem).1
      omega
  have hfits : ∀ node ∈ nodes, node.weight.toNat ≤ tally.totalweight ∧
      node.name.length + (decimal (tally.totalweight * weightratio tally.totalweight)).length + 1 <
        tally.maxname +
          (decimal (tally.totalweight * weightratio tally.totalweight)).length + 2 := by
    intro node' hmem'
    obtain ⟨hwt', hname⟩ := hbnds node' hmem'
    exact ⟨hwt', by omega⟩
  obtain ⟨vnodes, hvns⟩ := createVnodes_isSome identifier directlookup hfits 0
  unfold hashInit
  rw [htally, Option.bind_eq_bind, Option.bind_some, if_neg hacc]
  dsimp only
  rw [hvns]
  rfl

theorem vnodecount_pos (h : hashInit identifier nodes false = some table) : 0 < table.vnodecount := by
  obtain ⟨tally, -, h⟩ := Option.bind_eq_some_iff.1 h
  split at h
  · cases h
  · next htotal =>
    obtain ⟨vnodes, -, h⟩ := Option.bind_eq_some_iff.1 h
    obtain rfl := Option.some.inj h
    have hne : tally.totalweight ≠ 0 := fun hzero => htotal ⟨hzero, rfl⟩
    have hmul := Nat.mul_pos (weightratio_pos tally.totalweight) (Nat.pos_of_ne_zero hne)
    dsimp only
    omega

/-- The identifier of a position of the ring. -/
def HashTable.key (table : HashTable α) (i : Nat) : Nat :=
  (table.vnodes[i]?.map fun vnode => vnode.id.value).getD 0

def HashTable.Matches (table : HashTable α) (tid : Id) (target : List Char) (i : Nat) : Prop :=
  ∃ vnode node, table.vnodes[i]? = some vnode ∧ table.nodes[vnode.nodenum]? = some node ∧
    vnode.id = tid ∧ node.name = target

namespace HashTable.Valid

theorem vnode (h : table.Valid) {i : Nat} (hi : i < table.vnodecount) :
    ∃ vnode node, table.vnodes[i]? = some vnode ∧ table.nodes[vnode.nodenum]? = some node ∧
      table.key i = vnode.id.value := by
  have hi' : i < table.vnodes.length := h.vnodecount ▸ hi
  have hvn : table.vnodes[i]? = some table.vnodes[i] := List.getElem?_eq_getElem hi'
  have hnode := h.owned table.vnodes[i] (getElem_mem hi')
  refine ⟨_, _, hvn, List.getElem?_eq_getElem hnode, ?_⟩
  rw [HashTable.key, hvn]
  rfl

theorem ascending (h : table.Valid) : Ascending table.key table.vnodecount := by
  intro i j hij hj
  obtain ⟨vnode, -, hvn, -, hkey⟩ := h.vnode (hij.trans_lt hj)
  obtain ⟨vnode', -, hvn', -, hkey'⟩ := h.vnode hj
  rw [hkey, hkey']
  rcases Nat.lt_or_eq_of_le hij with hlt | rfl
  · have hi' : i < table.vnodes.length := h.vnodecount ▸ hij.trans_lt hj
    have hj' : j < table.vnodes.length := h.vnodecount ▸ hj
    have hle := List.pairwise_iff_getElem.1 h.sorted i j hi' hj' hlt
    rw [List.getElem?_eq_getElem hi'] at hvn
    rw [List.getElem?_eq_getElem hj'] at hvn'
    rwa [← Option.some.inj hvn, ← Option.some.inj hvn']
  · rw [hvn] at hvn'
    rw [Option.some.inj hvn']

end HashTable.Valid

theorem HashTable.Matches.key_eq (h : table.Matches tid target i) : table.key i = tid.value := by
  obtain ⟨vnode, node, hvn, -, hid, -⟩ := h
  rw [HashTable.key, hvn, ← hid]
  rfl

theorem HashTable.matches_iff {vnode : VirtualNode} (hvn : table.vnodes[i]? = some vnode)
    (hnode : table.nodes[vnode.nodenum]? = some node) (hid : vnode.id = tid) :
    table.Matches tid target i ↔ node.name = target := by
  refine ⟨fun ⟨vnode', node', hvn', hnode', _, hname⟩ => ?_, fun hname => ?_⟩
  · obtain rfl := Option.some.inj (hvn.symm.trans hvn')
    obtain rfl := Option.some.inj (hnode.symm.trans hnode')
    exact hname
  · exact ⟨vnode, node, hvn, hnode, hid, hname⟩

/-! ## The binary search -/

/-- How the binary search ends: it has closed, has come upon a collision, or upon the target. -/
inductive Searched (table : HashTable α) (tid : Id) (target : List Char) : SearchState → Prop
  | closed {i : Nat} (bracket : Bracket table.key table.vnodecount tid.value i i) :
    Searched table tid target { curnode := i, min := i, max := i, retval := 1 }
  | collision {i min max : Nat} (bracket : Bracket table.key table.vnodecount tid.value min max)
    (lt : i < max) (key : table.key i = tid.value) (different : ¬ table.Matches tid target i) :
    Searched table tid target { curnode := i, min := min, max := max, retval := 1 }
  | exact {i min : Nat} (lt : i < table.vnodecount) (found : table.Matches tid target i) :
    Searched table tid target { curnode := i, min := min, max := i, retval := 0 }

theorem searchLoop_searched (h : table.Valid) (target : List Char) {min : Nat}
    (hbr : Bracket table.key table.vnodecount tid.value min max) (hcurnode : curnode = min + (max - min) / 2)
    (hfuel : max - min < fuel) :
    ∃ search, searchLoop table tid target fuel curnode min max = some search ∧
      Searched table tid target search := by
  induction fuel generalizing curnode min max with
  | zero => exact absurd hfuel (Nat.not_lt_zero _)
  | succ fuel ih =>
    have hle := hbr.le
    have hlen := hbr.le_length
    rw [searchLoop]
    split
    · next heq =>
      subst heq
      obtain rfl : curnode = min := by omega
      exact ⟨_, rfl, .closed hbr⟩
    · next hne =>
      have hlt : curnode < max := by omega
      obtain ⟨vnode, node, hvn, hnode, hkey⟩ := h.vnode (hlt.trans_le hlen)
      simp only [hvn, Option.bind_eq_bind, Option.bind_some]
      rcases compareID_cases vnode.id tid with ⟨hlow, hcmp⟩ | ⟨hid, hcmp⟩ | ⟨hhigh, hcmp⟩
      · rw [hcmp, if_neg (by decide), if_pos (by decide)]
        exact ih (hbr.raise h.ascending hlt (hkey.trans_lt hlow)) rfl (by omega)
      · rw [hcmp, if_neg (by decide), if_neg (by decide), hnode, Option.bind_some]
        have hmatch : table.Matches tid target curnode ↔ node.name = target :=
          HashTable.matches_iff hvn hnode hid
        split
        · next hname =>
          refine ⟨_, rfl, .collision hbr hlt (hkey.trans (congrArg Id.value hid)) ?_⟩
          rw [hmatch]
          exact hname
        · next hname =>
          refine ⟨_, rfl, .exact (hlt.trans_le hlen) ?_⟩
          rw [hmatch]
          exact not_not.1 hname
      · rw [hcmp, if_pos (by decide)]
        have hge : min ≤ curnode := by omega
        exact ih (hbr.lower h.ascending hge hlt (hhigh.trans_eq hkey.symm)) rfl (by omega)

/-! ## Collisions -/

/-- How the search of the surroundings ends: it has found the target, or it is nowhere. -/
def Scanned (table : HashTable α) (tid : Id) (target : List Char) (search r : SearchState) : Prop :=
  (∃ i < table.vnodecount, table.Matches tid target i ∧
      r = { search with curnode := i, retval := 0 }) ∨
    r = search ∧ ∀ i < table.vnodecount, ¬ table.Matches tid target i

theorem atBound_spec (h : table.Valid) {tmpnode : Nat} (hmax : max ≤ table.vnodecount) (hle : tmpnode ≤ max) :
    atBound table tid max tmpnode = some true ∧
        (tmpnode = max ∨ tmpnode < max ∧ table.key tmpnode ≠ tid.value) ∨
      atBound table tid max tmpnode = some false ∧ tmpnode < max ∧
        table.key tmpnode = tid.value ∧ ∃ vnode node, table.vnodes[tmpnode]? = some vnode ∧
          table.nodes[vnode.nodenum]? = some node ∧ vnode.id = tid := by
  unfold atBound
  by_cases heq : tmpnode = max
  · exact .inl ⟨if_pos heq, .inl heq⟩
  · have hlt : tmpnode < max := lt_of_le_of_ne hle heq
    obtain ⟨vnode, node, hvn, hnode, hkey⟩ := h.vnode (hlt.trans_le hmax)
    rw [if_neg heq]
    simp only [hvn, Option.bind_eq_bind, Option.bind_some]
    rcases compareID_cases vnode.id tid with ⟨hlow, hcmp⟩ | ⟨hid, hcmp⟩ | ⟨hhigh, hcmp⟩
    · exact .inl ⟨by simp [hcmp], .inr ⟨hlt, hkey.trans_ne hlow.ne⟩⟩
    · refine .inr ⟨by simp [hcmp], hlt, ?_, vnode, node, rfl, hnode, hid⟩
      exact hkey.trans (congrArg Id.value hid)
    · exact .inl ⟨by simp [hcmp], .inr ⟨hlt, hkey.trans_ne hhigh.ne'⟩⟩

section Scan

variable (search : SearchState) {fuel tmpnode : Nat}

theorem scanLoop_down (h : table.Valid)
    (hbr : Bracket table.key table.vnodecount tid.value search.min search.max)
    (hlt : search.curnode < search.max) (hkey : table.key search.curnode = tid.value)
    (htmpnode : tmpnode < search.curnode)
    (hseen : ∀ i, tmpnode < i → i < table.vnodecount → ¬ table.Matches tid target i)
    (hfuel : tmpnode < fuel) :
    ∃ r, scanLoop table tid target search fuel tmpnode false = some r ∧
      Scanned table tid target search r := by
  have hmax := hbr.le_length
  induction fuel generalizing tmpnode with
  | zero => exact absurd hfuel (Nat.not_lt_zero _)
  | succ fuel ih =>
    rw [scanLoop]
    rcases atBound_spec h hmax (htmpnode.le.trans hlt.le) with
      ⟨hbound, hend⟩ | ⟨hbound, hlt', hkey', vnode, node, hvn, hnode, hid⟩
    · have hne : table.key tmpnode ≠ tid.value := by
        rcases hend with heq | ⟨-, hne⟩
        · omega
        · exact hne
      refine ⟨search, by simp [hbound], .inr ⟨rfl, fun i hi hmatch => ?_⟩⟩
      rcases Nat.lt_or_ge tmpnode i with hlt'' | hge
      · exact hseen i hlt'' hi hmatch
      · exact h.ascending.ne_of_le hkey (hlt.trans_le hmax) htmpnode.le hne hge hmatch.key_eq
    · simp only [hbound, hvn, hnode, Option.bind_eq_bind, Option.bind_some, Bool.false_eq_true,
        if_false]
      have hmatch : table.Matches tid target tmpnode ↔ node.name = target :=
        HashTable.matches_iff hvn hnode hid
      split
      · next hname =>
        exact ⟨_, rfl, .inl ⟨tmpnode, hlt'.trans_le hmax, hmatch.2 hname, rfl⟩⟩
      · next hname =>
        have hseen' : ∀ i, tmpnode ≤ i → i < table.vnodecount → ¬ table.Matches tid target i := by
          intro i hi hi'
          rcases Nat.lt_or_eq_of_le hi with hlt'' | rfl
          · exact hseen i hlt'' hi'
          · exact mt hmatch.1 hname
        have hge := (hbr.mem (hlt'.trans_le hmax) hkey').1
        split
        · next hmin =>
          refine ⟨search, rfl, .inr ⟨rfl, fun i hi hmatch' => ?_⟩⟩
          rcases Nat.lt_or_ge i tmpnode with hlt'' | hge'
          · exact (hbr.below i (hmin ▸ hlt'')).ne hmatch'.key_eq
          · exact hseen' i hge' hi hmatch'
        · next hmin =>
          -- the lower bound of the search is still below
          have hpos : tmpnode ≠ 0 := by omega
          simp only [proceed, Bool.false_eq_true, if_false, if_neg hpos, Option.bind_some]
          refine ih (by omega) (fun i hi hi' => hseen' i (by omega) hi') (by omega)

theorem scanLoop_up (h : table.Valid)
    (hbr : Bracket table.key table.vnodecount tid.value search.min search.max)
    (hlt : search.curnode < search.max) (hkey : table.key search.curnode = tid.value)
    (htmpnode : search.curnode < tmpnode) (hle : tmpnode ≤ search.max)
    (hseen : ∀ i, search.curnode ≤ i → i < tmpnode → ¬ table.Matches tid target i)
    (hfuel : search.max - tmpnode + search.curnode < fuel) :
    ∃ r, scanLoop table tid target search fuel tmpnode true = some r ∧
      Scanned table tid target search r := by
  have hmax := hbr.le_length
  induction fuel generalizing tmpnode with
  | zero => exact absurd hfuel (Nat.not_lt_zero _)
  | succ fuel ih =>
    rw [scanLoop]
    rcases atBound_spec h hmax hle with
      ⟨hbound, hend⟩ | ⟨hbound, hlt', hkey', vnode, node, hvn, hnode, hid⟩
    · have habove : ∀ i, search.curnode ≤ i → i < table.vnodecount →
          ¬ table.Matches tid target i := by
        intro i hi hi' hmatch
        rcases Nat.lt_or_ge i tmpnode with hlt'' | hge
        · exact hseen i hi hlt'' hmatch
        · rcases hend with rfl | ⟨-, hne⟩
          · exact (hbr.above i hge hi').ne' hmatch.key_eq
          · exact h.ascending.ne_of_ge hkey htmpnode.le hne hge hi' hmatch.key_eq
      simp only [hbound, Option.bind_eq_bind, Option.bind_some, if_true, true_and]
      split
      · next hpos =>
        exact scanLoop_down search h hbr hlt hkey (by omega) (fun i hi hi' => habove i (by omega) hi')
          (by omega)
      · next hzero =>
        refine ⟨search, rfl, .inr ⟨rfl, fun i hi => habove i (by omega) hi⟩⟩
    · simp only [hbound, hvn, hnode, Option.bind_eq_bind, Option.bind_some, Bool.false_eq_true,
        if_false]
      have hmatch : table.Matches tid target tmpnode ↔ node.name = target :=
        HashTable.matches_iff hvn hnode hid
      split
      · next hname =>
        exact ⟨_, rfl, .inl ⟨tmpnode, hlt'.trans_le hmax, hmatch.2 hname, rfl⟩⟩
      · next hname =>
        have hge := (hbr.mem (hlt.trans_le hmax) hkey).1
        rw [if_neg (by omega : tmpnode ≠ search.min)]
        simp only [proceed, if_true, Option.bind_some]
        refine ih (by omega) hlt' (fun i hi hi' => ?_) (by omega)
        rcases Nat.lt_or_eq_of_le (Nat.le_of_lt_succ hi') with hlt'' | rfl
        · exact hseen i hi hlt''
        · exact mt hmatch.1 hname

end Scan

/-! ## Lookups -/

def HashTable.Present (table : HashTable α) (tid : Id) (target : List Char) : Prop :=
  ∃ vnode ∈ table.vnodes, ∃ node, table.nodes[vnode.nodenum]? = some node ∧
    vnode.id = tid ∧ node.name = target

/-- The virtual node has the least identifier from that of the target on, or the least of all where
the ring is at its end. -/
def HashTable.IsNext (table : HashTable α) (tid : Id) (vnode : VirtualNode) : Prop :=
  vnode ∈ table.vnodes ∧
    (tid.value ≤ vnode.id.value ∧
        (∀ vnode' ∈ table.vnodes, tid.value ≤ vnode'.id.value → vnode.id.value ≤ vnode'.id.value) ∨
      (∀ vnode' ∈ table.vnodes, vnode'.id.value < tid.value) ∧
        ∀ vnode' ∈ table.vnodes, vnode.id.value ≤ vnode'.id.value)

theorem HashTable.present_iff (h : table.Valid) :
    table.Present tid target ↔ ∃ i < table.vnodecount, table.Matches tid target i := by
  constructor
  · rintro ⟨vnode, hmem, node, hnode, hid, hname⟩
    obtain ⟨i, hi, rfl⟩ := getElem_of_mem hmem
    exact ⟨i, h.vnodecount ▸ hi, _, node, List.getElem?_eq_getElem hi, hnode, hid, hname⟩
  · rintro ⟨i, -, vnode, node, hvn, hnode, hid, hname⟩
    exact ⟨vnode, mem_of_getElem? hvn, node, hnode, hid, hname⟩

theorem HashTable.isNext_of_isSuccessor (h : table.Valid) {vnode : VirtualNode}
    (hvn : table.vnodes[i]? = some vnode) (hnext : IsSuccessor table.key table.vnodecount tid.value i) :
    table.IsNext tid vnode := by
  have hkey : ∀ {j vnode'}, table.vnodes[j]? = some vnode' → table.key j = vnode'.id.value := by
    intro j vnode' hj
    rw [HashTable.key, hj]
    rfl
  have hpos : ∀ vnode' ∈ table.vnodes, ∃ j < table.vnodecount, table.key j = vnode'.id.value := by
    intro vnode' hmem
    obtain ⟨j, hj, rfl⟩ := getElem_of_mem hmem
    exact ⟨j, h.vnodecount ▸ hj, hkey (List.getElem?_eq_getElem hj)⟩
  refine ⟨mem_of_getElem? hvn, ?_⟩
  rw [← hkey hvn]
  rcases hnext with ⟨hle, hleast⟩ | ⟨hbelow, hleast⟩
  · refine .inl ⟨hle, fun vnode' hmem hle' => ?_⟩
    obtain ⟨j, hj, hkey'⟩ := hpos vnode' hmem
    rw [← hkey'] at hle' ⊢
    exact hleast j hj hle'
  · refine .inr ⟨fun vnode' hmem => ?_, fun vnode' hmem => ?_⟩
    · obtain ⟨j, hj, hkey'⟩ := hpos vnode' hmem
      exact hkey'.symm.trans_lt (hbelow j hj)
    · obtain ⟨j, hj, hkey'⟩ := hpos vnode' hmem
      exact (hleast j hj).trans_eq hkey'

/-- What a lookup has found before it maps the position to a node. -/
def Found (table : HashTable α) (tid : Id) (target : List Char) (curnode : Nat) (retval : Int) :
    Prop :=
  curnode < table.vnodecount ∧
    (retval = 0 ∧ table.Matches tid target curnode ∨
      retval = 1 ∧ ¬ table.Present tid target ∧
        IsSuccessor table.key table.vnodecount tid.value curnode)

theorem Searched.found (h : table.Valid) (hvns : 0 < table.vnodecount) {search : SearchState}
    (hsrch : Searched table tid target search) (hfuel : table.vnodecount < fuel) :
    ∃ search', scanCollision table tid target fuel search = some search' ∧
      Found table tid target
        (if search'.curnode = table.vnodecount then 0 else search'.curnode) search'.retval := by
  cases hsrch with
  | @closed i hbr =>
    refine ⟨_, if_neg (not_not.2 rfl), ?_, .inr ⟨rfl, ?_, hbr.successor h.ascending⟩⟩
    · have hle := hbr.le_length
      dsimp only
      split
      · exact hvns
      · omega
    · rw [HashTable.present_iff h]
      rintro ⟨j, hj, hmatch⟩
      exact hbr.ne hj hmatch.key_eq
  | @collision i min max hbr hlt hkey hdifferent =>
    have hmax := hbr.le_length
    obtain ⟨search', hscan, hscanned⟩ := scanLoop_up
      { curnode := i, min := min, max := max, retval := 1 } h hbr hlt hkey (Nat.lt_succ_self i)
      (Nat.succ_le_of_lt hlt) (fun j hj hj' => by
        obtain rfl : i = j := Nat.le_antisymm hj (Nat.le_of_lt_succ hj')
        exact hdifferent)
      (by omega : max - (i + 1) + i < fuel)
    refine ⟨search', (if_pos hlt.ne).trans hscan, ?_⟩
    rcases hscanned with ⟨j, hj, hmatch, rfl⟩ | ⟨rfl, hnone⟩
    · simp only [if_neg hj.ne]
      exact ⟨hj, .inl ⟨rfl, hmatch⟩⟩
    · have hi : i < table.vnodecount := hlt.trans_le hmax
      simp only [if_neg hi.ne]
      refine ⟨hi, .inr ⟨rfl, ?_, .of_eq hkey⟩⟩
      rw [HashTable.present_iff h]
      exact fun ⟨j, hj, hmatch⟩ => hnone j hj hmatch
  | @exact i min hi hmatch =>
    refine ⟨_, if_neg (not_not.2 rfl), ?_⟩
    simp only [if_neg hi.ne]
    exact ⟨hi, .inl ⟨rfl, hmatch⟩⟩

/-- A lookup in a table that has been built ends, within its bounds.  It tells exactly whether the
target is there; if it is not, it goes to the next node of the ring. -/
theorem hashLookup_hashInit (hinit : hashInit identifier nodes directlookup = some table)
    (hvnodes : 0 < table.vnodecount) (target : List Char) (hfuel : table.vnodecount < fuel) :
    ∃ retval nodenum node, hashLookup identifier fuel table target = some (retval, nodenum) ∧
      nodes[nodenum]? = some node ∧
      (table.Present (identifier target) target → retval = 0 ∧ node.name = target) ∧
      (¬ table.Present (identifier target) target → retval = 1 ∧
        ∃ vnode, vnode.nodenum = nodenum ∧ table.IsNext (identifier target) vnode) := by
  obtain ⟨h, rfl⟩ := hashInit_valid hinit
  obtain ⟨search, hsearch, hsearched⟩ := searchLoop_searched h target
    (Bracket.whole table.key table.vnodecount (identifier target).value)
    (by omega : table.vnodecount / 2 = 0 + (table.vnodecount - 0) / 2) hfuel
  obtain ⟨search', hscan, hlt, hfound⟩ := hsearched.found h hvnodes hfuel
  obtain ⟨vnode, node, hvnode, hnode, -⟩ := h.vnode hlt
  refine ⟨search'.retval, vnode.nodenum, node, ?_, hnode, fun hpresent => ?_, fun hpresent => ?_⟩
  · simp only [hashLookup, hsearch, Option.bind_eq_bind, Option.bind_some, hscan, hvnode]
  · rcases hfound with ⟨hretval, hmatches⟩ | ⟨-, hnone, -⟩
    · obtain ⟨vnode', node', hvnode', hnode', -, hname⟩ := hmatches
      obtain rfl := Option.some.inj (hvnode.symm.trans hvnode')
      obtain rfl := Option.some.inj (hnode.symm.trans hnode')
      exact ⟨hretval, hname⟩
    · exact absurd hpresent hnone
  · rcases hfound with ⟨-, hmatches⟩ | ⟨hretval, -, hnext⟩
    · exact absurd ((HashTable.present_iff h).2 ⟨_, hlt, hmatches⟩) hpresent
    · exact ⟨hretval, vnode, rfl, HashTable.isNext_of_isSuccessor h hvnode hnext⟩

/-- A hash function under which all names collide. -/
def collidingIdentifier (_ : List Char) : Id := { hi := 0, lo := 7 }

def sampleNodes : List (HashNode Unit) :=
  [{ name := ['a'], weight := 0, content := () }, { name := ['b'], weight := 0, content := () },
    { name := ['c'], weight := 0, content := () }]

theorem sampleNodes_lookup : ∃ table, hashInit collidingIdentifier sampleNodes true = some table ∧
    ∃ retval nodenum node, hashLookup collidingIdentifier 4 table ['c'] = some (retval, nodenum) ∧
      sampleNodes[nodenum]? = some node ∧ retval = 0 ∧ node.name = ['c'] := by
  have hsome : (hashInit collidingIdentifier sampleNodes true).isSome := by decide +kernel
  have htables : ∀ table ∈ hashInit collidingIdentifier sampleNodes true, table.vnodecount = 3 ∧
      ∃ vnode ∈ table.vnodes, ∃ node ∈ table.nodes[vnode.nodenum]?,
        vnode.id = { hi := 0, lo := 7 } ∧ node.name = ['c'] := by
    decide +kernel
  obtain ⟨table, htable⟩ := Option.isSome_iff_exists.1 hsome
  obtain ⟨hvnodes, vnode, hmem, node, hnode, hid, hname⟩ := htables table htable
  obtain ⟨retval, nodenum, node', hlookup, hnode', hfound, -⟩ :=
    hashLookup_hashInit htable (by omega) ['c'] (by omega : table.vnodecount < 4)
  exact ⟨table, htable, retval, nodenum, node', hlookup, hnode',
    hfound ⟨vnode, hmem, node, hnode, hid, hname⟩⟩

end Marfs.Hash
