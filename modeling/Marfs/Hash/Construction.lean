import Marfs.Hash.Lookup

/-!
# What is in a hash table

`hash_init` counts the virtual nodes before it makes them.  It makes as many as it has counted, each
under its whole name; the node they belong to is told by its weight (`hashInit_construction`).
-/

namespace Marfs.Hash

open Cstring List

variable {α : Type} {identifier : List Char → Id} {table : HashTable α}

def namedVnodes (identifier : List Char → Id) (directlookup : Bool) (ratio curnode : Nat)
    (node : HashNode α) : List VirtualNode :=
  if node.weight ≠ 0 then
    (List.range (node.weight.toNat * ratio)).map fun tmpvnode =>
      { id := identifier (node.name ++ '-' :: decimal tmpvnode), nodenum := curnode }
  else if directlookup then [{ id := identifier node.name, nodenum := curnode }]
  else []

def allVnodes (identifier : List Char → Id) (directlookup : Bool) (ratio : Nat) :
    Nat → List (HashNode α) → List VirtualNode
  | _, [] => []
  | curnode, node :: nodes =>
    namedVnodes identifier directlookup ratio curnode node ++
      allVnodes identifier directlookup ratio (curnode + 1) nodes

def totalWeight (nodes : List (HashNode α)) : Nat := (nodes.map fun node => node.weight.toNat).sum

section Create

variable {directlookup : Bool} {ratio len curnode : Nat} {node : HashNode α}
  {nodes : List (HashNode α)} {vnodes : List VirtualNode}

theorem weightedVnodes_eq {name : List Char} {l : List Nat}
    (h : l.mapM (weightedVnode identifier len curnode name) = some vnodes) :
    vnodes = l.map fun tmpvnode =>
      { id := identifier (name ++ '-' :: decimal tmpvnode), nodenum := curnode } := by
  induction l generalizing vnodes with
  | nil => exact (Option.some.inj h).symm
  | cons i l ih =>
    rw [mapM_cons] at h
    obtain ⟨vnode, hvn, h⟩ := Option.bind_eq_some_iff.1 h
    obtain ⟨rest, hrest, h⟩ := Option.bind_eq_some_iff.1 h
    obtain rfl : vnode :: rest = vnodes := Option.some.inj h
    unfold weightedVnode at hvn
    dsimp only at hvn
    split at hvn
    · cases hvn
    · rw [map_cons, ← ih hrest, ← Option.some.inj hvn]

theorem nodeVnodes_eq (h : nodeVnodes identifier directlookup ratio len curnode node = some vnodes) :
    vnodes = namedVnodes identifier directlookup ratio curnode node := by
  unfold nodeVnodes at h
  unfold namedVnodes
  split at h
  · next hwt =>
    rw [if_pos hwt]
    exact weightedVnodes_eq h
  · next hwt =>
    rw [if_neg hwt]
    split at h
    · next hlook =>
      rw [if_pos hlook]
      exact (Option.some.inj h).symm
    · next hlook =>
      rw [if_neg hlook]
      exact (Option.some.inj h).symm

theorem createVnodes_eq (h : createVnodes identifier directlookup ratio len curnode nodes = some vnodes) :
    vnodes = allVnodes identifier directlookup ratio curnode nodes := by
  induction nodes generalizing curnode vnodes with
  | nil => exact (Option.some.inj h).symm
  | cons node nodes ih =>
    obtain ⟨first, hfst, h⟩ := Option.bind_eq_some_iff.1 h
    obtain ⟨rest, hrest, h⟩ := Option.bind_eq_some_iff.1 h
    obtain rfl : first ++ rest = vnodes := Option.some.inj h
    rw [nodeVnodes_eq hfst, ih hrest, allVnodes]

theorem namedVnodes_count (k : Nat) :
    (namedVnodes identifier directlookup ratio curnode node).countP (fun vnode => vnode.nodenum = k) =
      if curnode = k then vnodesOf directlookup ratio node else 0 := by
  have hsame : ∀ vnode ∈ namedVnodes identifier directlookup ratio curnode node,
      vnode.nodenum = curnode := by
    intro vnode hvn
    unfold namedVnodes at hvn
    split at hvn
    · obtain ⟨i, -, rfl⟩ := List.mem_map.1 hvn
      rfl
    · split at hvn
      · rw [List.mem_singleton.1 hvn]
      · cases hvn
  have hlen : (namedVnodes identifier directlookup ratio curnode node).length =
      vnodesOf directlookup ratio node := by
    unfold namedVnodes vnodesOf
    split
    · rw [length_map, length_range]
    · split <;> rfl
  split
  · next heq =>
    rw [← hlen, countP_eq_length]
    exact fun vnode hvn => decide_eq_true ((hsame vnode hvn).trans heq)
  · next hne =>
    rw [countP_eq_zero]
    exact fun vnode hvn hk => hne ((hsame vnode hvn).symm.trans (of_decide_eq_true hk))

theorem allVnodes_count_lt {k : Nat} (hk : k < curnode) :
    (allVnodes identifier directlookup ratio curnode nodes).countP
        (fun vnode => vnode.nodenum = k) = 0 := by
  induction nodes generalizing curnode with
  | nil => rfl
  | cons node nodes ih =>
    rw [allVnodes, countP_append, namedVnodes_count, if_neg (Nat.ne_of_gt hk),
      ih (hk.trans (Nat.lt_succ_self curnode))]

theorem allVnodes_count {i : Nat} (hi : nodes[i]? = some node) :
    (allVnodes identifier directlookup ratio curnode nodes).countP
        (fun vnode => vnode.nodenum = curnode + i) = vnodesOf directlookup ratio node := by
  induction nodes generalizing curnode i with
  | nil => cases hi
  | cons first nodes ih =>
    rw [allVnodes, countP_append, namedVnodes_count]
    cases i with
    | zero =>
      obtain rfl := Option.some.inj hi
      rw [if_pos (Nat.add_zero curnode).symm, Nat.add_zero, allVnodes_count_lt (Nat.lt_succ_self _)]
      rfl
    | succ i =>
      have hsum : curnode + (i + 1) = curnode + 1 + i := by omega
      rw [if_neg (by omega), Nat.zero_add, hsum]
      exact ih hi

end Create

theorem gather_totalweight {nodes : List (HashNode α)} {tally tally' : Tally}
    (h : gather nodes tally = some tally') :
    tally'.totalweight = tally.totalweight + totalWeight nodes ∧ ∀ node ∈ nodes, 0 ≤ node.weight := by
  induction nodes generalizing tally with
  | nil =>
    obtain rfl := Option.some.inj h
    exact ⟨rfl, fun _ hmem => absurd hmem not_mem_nil⟩
  | cons node nodes ih =>
    rw [gather] at h
    split at h
    · cases h
    · next hwt =>
      obtain ⟨htotal, hall⟩ := ih h
      refine ⟨?_, List.forall_mem_cons.2 ⟨Int.not_lt.1 hwt, hall⟩⟩
      rw [htotal, totalWeight, totalWeight, map_cons, sum_cons]
      dsimp only
      omega

theorem hashInit_isSome_iff {nodes : List (HashNode α)} {directlookup : Bool} :
    (hashInit identifier nodes directlookup).isSome ↔ (∀ node ∈ nodes, 0 ≤ node.weight) ∧
      (directlookup = true ∨ ∃ node ∈ nodes, 0 < node.weight) := by
  refine ⟨fun h => ?_, fun h => hashInit_isSome identifier h.1 h.2⟩
  obtain ⟨table, htable⟩ := Option.isSome_iff_exists.1 h
  obtain ⟨tally, htally, htable⟩ := Option.bind_eq_some_iff.1 htable
  obtain ⟨htotal, hwt⟩ := gather_totalweight htally
  refine ⟨hwt, ?_⟩
  split at htable
  · cases htable
  · next hacc =>
    by_cases hlook : directlookup = true
    · exact .inl hlook
    · right
      by_contra hnone
      push Not at hnone
      apply hacc
      refine ⟨?_, Bool.eq_false_iff.2 hlook⟩
      rw [htotal, totalWeight, Nat.zero_add]
      apply List.sum_eq_zero_iff_forall_eq_nat.2
      intro weight hmem
      obtain ⟨node, hnode, rfl⟩ := List.mem_map.1 hmem
      exact Int.toNat_eq_zero.2 (hnone node hnode)

/-- What is in a table: as many virtual nodes as were counted, under their whole names and sorted by
their identifiers; every node has as many of them as its weight says, and one without a weight if it is
to be looked up directly.  A table is refused only for a negative weight or if there is nothing in it. -/
theorem hashInit_construction (identifier : List Char → Id) (nodes : List (HashNode α))
    (directlookup : Bool) :
    ((hashInit identifier nodes directlookup).isSome ↔ (∀ node ∈ nodes, 0 ≤ node.weight) ∧
      (directlookup = true ∨ ∃ node ∈ nodes, 0 < node.weight)) ∧
    ∀ table, hashInit identifier nodes directlookup = some table →
      table.vnodes.length = table.vnodecount ∧
      (∀ i node, nodes[i]? = some node → table.vnodes.countP (fun vnode => vnode.nodenum = i) =
        if 0 < node.weight then node.weight.toNat * weightratio (totalWeight nodes)
        else if directlookup then 1 else 0) ∧
      table.vnodes.Perm (allVnodes identifier directlookup (weightratio (totalWeight nodes)) 0 nodes) ∧
      table.vnodes.Pairwise fun nodeA nodeB => compareID nodeA.id nodeB.id ≤ 0 := by
  refine ⟨hashInit_isSome_iff, fun table h => ?_⟩
  obtain ⟨hvalid, -⟩ := hashInit_valid h
  obtain ⟨tally, htally, h⟩ := Option.bind_eq_some_iff.1 h
  obtain ⟨htotal, hweight⟩ := gather_totalweight htally
  rw [Nat.zero_add] at htotal
  have hperm : table.vnodes.Perm
      (allVnodes identifier directlookup (weightratio (totalWeight nodes)) 0 nodes) := by
    split at h
    · cases h
    · obtain ⟨vnodes, hvnodes, h⟩ := Option.bind_eq_some_iff.1 h
      obtain rfl := Option.some.inj h
      rw [← htotal, ← createVnodes_eq hvnodes]
      exact perm_insertionSort _ _
  refine ⟨hvalid.vnodecount, fun i node hnode => ?_, hperm, hvalid.sorted.imp fun {nodeA nodeB} hle => ?_⟩
  · have hnonneg := hweight node (mem_of_getElem? hnode)
    have hcount : (allVnodes identifier directlookup (weightratio (totalWeight nodes)) 0 nodes).countP
        (fun vnode => vnode.nodenum = 0 + i) =
          vnodesOf directlookup (weightratio (totalWeight nodes)) node := allVnodes_count hnode
    rw [Nat.zero_add] at hcount
    rw [hperm.countP_eq, hcount, vnodesOf]
    by_cases hpos : 0 < node.weight
    · rw [if_pos hpos, if_pos (ne_of_gt hpos)]
    · rw [if_neg hpos, if_neg (not_not.2 (by omega))]
  · rcases compareID_cases nodeA.id nodeB.id with ⟨-, heq⟩ | ⟨-, heq⟩ | ⟨hlt, -⟩
    · rw [heq]
      decide
    · rw [heq]
    · omega

end Marfs.Hash
