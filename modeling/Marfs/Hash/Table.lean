import Mathlib.Data.List.Sort
import Marfs.Cstring.Decimal

/-!
# Hash tables

Nodes own virtual nodes, as many as their weights say, each at the identifier of a name of its own.
A lookup goes to the virtual node that comes next in the ring, and tells if its node has the name.
The hash function is a parameter.  Memory allocation succeeds, and `int` sums do not overflow.
-/

namespace Marfs.Hash

open Cstring

structure HashNode (α : Type) where
  name : List Char
  weight : Int
  content : α

/-- The two words of an identifier. -/
structure Id where
  hi : UInt64
  lo : UInt64
  deriving DecidableEq, Repr

structure VirtualNode where
  id : Id
  nodenum : Nat
  deriving DecidableEq, Repr

structure HashTable (α : Type) where
  nodecount : Nat
  nodes : List (HashNode α)
  vnodecount : Nat
  vnodes : List VirtualNode
  curnode : Nat
  iterated : Nat

def targetNodeCount : Nat := 50000

def compareID (idA idB : Id) : Int :=
  if idA.hi > idB.hi then 1
  else if idA.hi < idB.hi then -1
  else if idA.lo > idB.lo then 1
  else if idA.lo < idB.lo then -1
  else 0

def compareNodes (nodeA nodeB : VirtualNode) : Int :=
  let comparisonResult := compareID nodeA.id nodeB.id
  if comparisonResult ≠ 0 then comparisonResult
  else if nodeA.nodenum < nodeB.nodenum then -1
  else if nodeB.nodenum = nodeA.nodenum then 0
  else 1

section Init

variable {α : Type} (identifier : List Char → Id)

/-- What `hash_init` gathers from the list of nodes. -/
structure Tally where
  totalweight : Nat
  zerocount : Nat
  maxname : Nat

def gather : List (HashNode α) → Tally → Option Tally
  | [], tally => some tally
  | node :: nodes, tally =>
    if node.weight < 0 then none
    else gather nodes
      { totalweight := tally.totalweight + node.weight.toNat
        zerocount := if node.weight = 0 then tally.zerocount + 1 else tally.zerocount
        maxname := max tally.maxname node.name.length }

/-- How many virtual nodes there are for each unit of weight: enough to get to the target. -/
def weightratio (totalweight : Nat) : Nat :=
  if totalweight ≠ 0 then
    if targetNodeCount % totalweight ≠ 0 then targetNodeCount / totalweight + 1
    else targetNodeCount / totalweight
  else 1

def weightedVnode (len curnode : Nat) (name : List Char) (tmpvnode : Nat) : Option VirtualNode :=
  let vnodename := name ++ '-' :: decimal tmpvnode
  if vnodename.length ≥ len then none
  else some { id := identifier vnodename, nodenum := curnode }

/-- The virtual nodes of a node: one at its very name if it has no weight, in a table for direct
lookups. -/
def nodeVnodes (directlookup : Bool) (ratio len curnode : Nat) (node : HashNode α) :
    Option (List VirtualNode) :=
  if node.weight ≠ 0 then
    (List.range (node.weight.toNat * ratio)).mapM (weightedVnode identifier len curnode node.name)
  else if directlookup then some [{ id := identifier node.name, nodenum := curnode }]
  else some []

def createVnodes (directlookup : Bool) (ratio len : Nat) :
    Nat → List (HashNode α) → Option (List VirtualNode)
  | _, [] => some []
  | curnode, node :: nodes => do
    let vnodes ← nodeVnodes identifier directlookup ratio len curnode node
    let rest ← createVnodes directlookup ratio len (curnode + 1) nodes
    some (vnodes ++ rest)

def hashInit (nodes : List (HashNode α)) (directlookup : Bool) : Option (HashTable α) := do
  let tally ← gather nodes { totalweight := 0, zerocount := 0, maxname := 0 }
  if tally.totalweight = 0 ∧ directlookup = false then none
  else do
    let ratio := weightratio tally.totalweight
    let vnodecount := ratio * tally.totalweight + if directlookup then tally.zerocount else 0
    let maxdigits := (decimal (tally.totalweight * ratio)).length
    let vnodes ← createVnodes identifier directlookup ratio (tally.maxname + maxdigits + 2) 0 nodes
    some
      { nodecount := nodes.length, nodes := nodes, vnodecount := vnodecount
        vnodes := vnodes.insertionSort fun nodeA nodeB => compareNodes nodeA nodeB ≤ 0
        curnode := 0, iterated := 0 }

end Init

section Lookup

variable {α : Type} (identifier : List Char → Id)

/-- The variables of `hash_lookup` behind its binary search. -/
structure SearchState where
  curnode : Nat
  min : Nat
  max : Nat
  retval : Int
  deriving DecidableEq, Repr

/-- The binary search of `hash_lookup`.  No result: an index is out of bounds, or it is still
running. -/
def searchLoop (table : HashTable α) (tid : Id) (target : List Char) :
    Nat → Nat → Nat → Nat → Option SearchState
  | 0, _, _, _ => none
  | fuel + 1, curnode, min, max =>
    if min = max then some { curnode := curnode, min := min, max := max, retval := 1 }
    else do
      let vnode ← table.vnodes[curnode]?
      let comparison := compareID vnode.id tid
      if comparison > 0 then searchLoop table tid target fuel (min + (curnode - min) / 2) min curnode
      else if comparison < 0 then
        searchLoop table tid target fuel (curnode + 1 + (max - (curnode + 1)) / 2) (curnode + 1) max
      else do
        let node ← table.nodes[vnode.nodenum]?
        if node.name ≠ target then
          -- an ID collision
          some { curnode := curnode, min := min, max := max, retval := 1 }
        else some { curnode := curnode, min := min, max := curnode, retval := 0 }

/-- Whether the search of surrounding nodes has to stop here. -/
def atBound (table : HashTable α) (tid : Id) (max tmpnode : Nat) : Option Bool :=
  if tmpnode = max then some true
  else do
    let vnode ← table.vnodes[tmpnode]?
    some (decide (compareID vnode.id tid ≠ 0))

/-- The next position in a direction.  No result: an unsigned value overflows. -/
def proceed (up : Bool) (tmpnode : Nat) : Option Nat :=
  if up then some (tmpnode + 1) else if tmpnode = 0 then none else some (tmpnode - 1)

def scanLoop (table : HashTable α) (tid : Id) (target : List Char) (search : SearchState) :
    Nat → Nat → Bool → Option SearchState
  | 0, _, _ => none
  | fuel + 1, tmpnode, up => do
    let bound ← atBound table tid search.max tmpnode
    if bound then
      if up ∧ search.curnode ≠ 0 then
        scanLoop table tid target search fuel (search.curnode - 1) false
      else some search
    else do
      let vnode ← table.vnodes[tmpnode]?
      let node ← table.nodes[vnode.nodenum]?
      if node.name = target then some { search with curnode := tmpnode, retval := 0 }
      else if tmpnode = search.min then some search
      else do
        let tmpnode ← proceed up tmpnode
        scanLoop table tid target search fuel tmpnode up

def scanCollision (table : HashTable α) (tid : Id) (target : List Char) (fuel : Nat)
    (search : SearchState) : Option SearchState :=
  if search.curnode ≠ search.max then
    scanLoop table tid target search fuel (search.curnode + 1) true
  else some search

/-- `hash_lookup`: its return value and the number of the node. -/
def hashLookup (fuel : Nat) (table : HashTable α) (target : List Char) : Option (Int × Nat) := do
  let tid := identifier target
  let search ← searchLoop table tid target fuel (table.vnodecount / 2) 0 table.vnodecount
  let search ← scanCollision table tid target fuel search
  let curnode := if search.curnode = table.vnodecount then 0 else search.curnode
  let vnode ← table.vnodes[curnode]?
  some (search.retval, vnode.nodenum)

end Lookup

section Iterate

variable {α : Type}

/-- `hash_iterate`: the number of the node that is next, if any is left. -/
def hashIterate (table : HashTable α) : Option Nat × HashTable α :=
  if table.iterated ≥ table.nodecount then (none, table)
  else
    (some table.curnode,
      { table with
        iterated := table.iterated + 1
        curnode := if table.curnode + 1 ≥ table.nodecount then 0 else table.curnode + 1 })

def hashReset (table : HashTable α) : HashTable α := { table with curnode := 0, iterated := 0 }

end Iterate

end Marfs.Hash
