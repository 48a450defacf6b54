import Mathlib.Data.Finset.Lattice.Fold
import Mathlib.Data.Finset.Range
import Marfs.Api.GuardedRun
import Marfs.Config.Duplicate

/-!
# The namespaces a run is for

A recursive run lists the namespaces below its target: the loop enters each subspace as it comes up in the
iteration of its parent's table, and climbs back by the reference to the parent.  From a standard namespace
that lists each of them once.  From a ghost copy it climbs past the copy, to the ghost's target and on to
the root.
-/

namespace Marfs.Rman

open Hash Config List

/-! ## The loop -/

abbrev Subnode := List Char × Nat

structure NsWalk where
  subspaces : NsRef → Option (HashTable Nat)
  nslist : List NsRef
  curns : NsRef

section Loop

variable (config : MarfsConfig)

def NsWalk.leave (start : NsRef) (s : NsWalk) : LoopStep NsWalk (Option (List NsRef)) :=
  if s.curns = start then .done (some s.nslist)
  else
    match (config.deref s.curns).pnamespace with
    | none => .done (some s.nslist)
    | some parent => .next { s with curns := .table parent }

/-- A pass of the loop in `main`.  No result: a read behind a table. -/
def nslistStep (recurse : Bool) (start : NsRef) (s : NsWalk) : LoopStep NsWalk (Option (List NsRef)) :=
  match if recurse then s.subspaces s.curns else none with
  | none => s.leave config start
  | some table =>
    match hashIterate table with
    | (none, _) => s.leave config start
    | (some nodenum, table') =>
      match table.nodes[nodenum]? with
      | none => .done none
      | some subnode =>
        let subspaces := fun ref => if ref = s.curns then some table' else s.subspaces ref
        let subspace := subnode.content
        -- only process non-ghost subspaces
        if (config.ns subspace).ghtarget = none then
          .next ⟨subspaces, s.nslist ++ [.table subspace], .table subspace⟩
        else .next { s with subspaces := subspaces }

/-- Before the loop.  Traversal does not iterate over tables. -/
def NsWalk.enter (identifier : List Char → Id) (start : NsRef) : NsWalk :=
  ⟨fun ref => buildSubspaces identifier (config.deref ref).subnodes, [start], start⟩

def Sub (n m : Nat) : Prop :=
  ∃ node ∈ (config.ns n).subnodes, node.2 = m ∧ (config.ns m).ghtarget = none

/-- The non-ghost namespaces among these subspaces, and below. -/
def Within (nodes : List Subnode) (m : Nat) : Prop :=
  ∃ node ∈ nodes, (config.ns node.2).ghtarget = none ∧ Relation.ReflTransGen (Sub config) node.2 m

end Loop

/-! ## What is left of a table -/

def Pending : Option (HashTable Nat) → List Subnode → Prop
  | none, nodes => nodes = []
  | some table, nodes => table.nodecount = table.nodes.length ∧
    table.nodes.drop table.iterated = subspaceNodes nodes ∧
    (table.iterated < table.nodecount → table.curnode = table.iterated)

section Pending

variable {config : MarfsConfig} {start : NsRef} {s : NsWalk} {node : Subnode}
  {nodes : List Subnode}

theorem nslistStep_nil (h : Pending (s.subspaces s.curns) []) :
    nslistStep config true start s = s.leave config start := by
  unfold nslistStep
  rw [if_pos rfl]
  cases htable : s.subspaces s.curns with
  | none => rfl
  | some table =>
    rw [htable] at h
    obtain ⟨hcount, hdrop, -⟩ := h
    have hle : table.nodes.length ≤ table.iterated := drop_eq_nil_iff.1 hdrop
    have hiter : hashIterate table = (none, table) := if_pos (hcount ▸ hle)
    simp only [hiter]

theorem nslistStep_cons (config : MarfsConfig) (start : NsRef)
    (h : Pending (s.subspaces s.curns) (node :: nodes)) :
    ∃ subspaces, Pending (subspaces s.curns) nodes ∧
      (∀ ref, ref ≠ s.curns → subspaces ref = s.subspaces ref) ∧
      nslistStep config true start s =
        if (config.ns node.2).ghtarget = none then
          .next ⟨subspaces, s.nslist ++ [.table node.2], .table node.2⟩
        else .next { s with subspaces := subspaces } := by
  unfold nslistStep
  rw [if_pos rfl]
  cases htable : s.subspaces s.curns with
  | none =>
    rw [htable] at h
    cases h
  | some table =>
    rw [htable] at h
    obtain ⟨hcount, hdrop, hcur⟩ := h
    have hget : table.nodes[table.iterated]? = some { name := node.1, weight := 0, content := node.2 } := by
      have hhead := congrArg List.head? hdrop
      rwa [head?_drop] at hhead
    have hlt : table.iterated < table.nodecount := hcount ▸ (List.getElem?_eq_some_iff.1 hget).1
    have hnext : ¬table.iterated ≥ table.nodecount := Nat.not_le.2 hlt
    have hiter : hashIterate table = (some table.iterated, (hashIterate table).2) := by
      rw [hashIterate, if_neg hnext, hcur hlt]
    refine ⟨fun ref => if ref = s.curns then some (hashIterate table).2 else s.subspaces ref, ?_,
      fun ref hne => if_neg hne, ?_⟩
    · dsimp only
      rw [if_pos rfl, hashIterate, if_neg hnext]
      refine ⟨hcount, ?_, fun hlast => ?_⟩
      · rw [← tail_drop, hdrop]
        rfl
      · rw [hcur hlt]
        exact if_neg (Nat.not_le.2 hlast)
    · dsimp only
      rw [hiter]
      simp only [hget]

end Pending

/-! ## Below a namespace -/

section Below

variable {config : MarfsConfig} {height : Nat → Nat} {n m : Nat} {node node' : Subnode}
  {nodes nodes' : List Subnode}

theorem Within.mono (h : Within config nodes m) (hsub : nodes ⊆ nodes') : Within config nodes' m :=
  h.imp fun _ h => ⟨hsub h.1, h.2⟩

theorem within_cons : Within config (node :: nodes) m ↔ Within config [node] m ∨ Within config nodes m := by
  simp [Within]

theorem within_singleton (hplain : (config.ns node.2).ghtarget = none) :
    Within config [node] m ↔ m = node.2 ∨ Within config (config.ns node.2).subnodes m := by
  have hsub : (∃ k, Sub config node.2 k ∧ Relation.ReflTransGen (Sub config) k m) ↔
      Within config (config.ns node.2).subnodes m := by
    constructor
    · rintro ⟨_, ⟨node', hmem, rfl, hplain'⟩, hrest⟩
      exact ⟨node', hmem, hplain', hrest⟩
    · rintro ⟨node', hmem, hplain', hrest⟩
      exact ⟨node'.2, ⟨node', hmem, rfl, hplain'⟩, hrest⟩
  rw [← hsub, eq_comm, ← Relation.ReflTransGen.cases_head_iff]
  simp [Within, hplain]

theorem within_here (hmem : node ∈ nodes) (hplain : (config.ns node.2).ghtarget = none) :
    Within config nodes node.2 := ⟨node, hmem, hplain, .refl⟩

theorem Within.down (hmem : node ∈ nodes) (hplain : (config.ns node.2).ghtarget = none)
    (h : Within config (config.ns node.2).subnodes m) : Within config nodes m :=
  ((within_singleton hplain).2 (.inr h)).mono (List.cons_subset.2 ⟨hmem, List.nil_subset nodes⟩)

/-- The references to the parents lead up from it. -/
theorem Within.climbs (htree : config.Tree) (h : Within config nodes m) :
    ∃ node ∈ nodes, Relation.ReflTransGen (fun a b => (config.ns a).pnamespace = some b) m node.2 := by
  obtain ⟨node, hmem, -, hdown⟩ := h
  refine ⟨node, hmem, Relation.ReflTransGen.mono ?_ _ _ hdown.swap⟩
  rintro _ n ⟨node', hmem', rfl, -⟩
  exact htree.child n node' hmem'

variable (hheight : ∀ n parent, (config.ns n).pnamespace = some parent → height parent < height n)

include hheight in
theorem climbs_height (h : Relation.ReflTransGen (fun a b => (config.ns a).pnamespace = some b) m n) :
    height n ≤ height m := by
  induction h with
  | refl => exact Nat.le_refl _
  | tail _ hlast ih => exact ((hheight _ _ hlast).trans_le ih).le

include hheight in
theorem Within.height_lt (htree : config.Tree) (h : Within config (config.ns n).subnodes m) :
    height n < height m := by
  obtain ⟨node, hnode, hclimb⟩ := h.climbs htree
  exact (hheight _ _ (htree.child n node hnode)).trans_le (climbs_height hheight hclimb)

include hheight in
theorem Within.ne (htree : config.Tree) (h : Within config (config.ns n).subnodes m) : m ≠ n := by
  rintro rfl
  exact Nat.lt_irrefl _ (h.height_lt hheight htree)

include hheight in
/-- Two subspaces have nothing in common. -/
theorem Within.disjoint (htree : config.Tree) (hnode : node ∈ (config.ns n).subnodes)
    (hnode' : node' ∈ (config.ns n).subnodes) (h : Within config [node] m) (h' : Within config [node'] m) :
    node.2 = node'.2 := by
  have hfun : Relator.RightUnique fun a b => (config.ns a).pnamespace = some b :=
    fun _ _ _ hab hac => Option.some.inj (hab.symm.trans hac)
  -- the way up from one subspace to another would pass the parent
  have hpast {node node' : Subnode} (hnode : node ∈ (config.ns n).subnodes)
      (hnode' : node' ∈ (config.ns n).subnodes)
      (hup : Relation.ReflTransGen (fun a b => (config.ns a).pnamespace = some b) node.2 node'.2) :
      node.2 = node'.2 := by
    rcases hup.cases_head with heq | ⟨parent, hparent, hup⟩
    · exact heq
    · obtain rfl := Option.some.inj ((htree.child n node hnode).symm.trans hparent)
      have hle := climbs_height hheight hup
      have hlt := hheight _ _ (htree.child n node' hnode')
      omega
  obtain ⟨_, hmem, hclimb⟩ := h.climbs htree
  obtain rfl := List.mem_singleton.1 hmem
  obtain ⟨_, hmem, hclimb'⟩ := h'.climbs htree
  obtain rfl := List.mem_singleton.1 hmem
  rcases hclimb.total_of_right_unique hfun hclimb' with hup | hup
  · exact hpast hnode hnode' hup
  · exact (hpast hnode' hnode hup).symm

end Below

/-! ## Runs -/

/-- The tables have these subspaces to come. -/
structure NsWalk.At (config : MarfsConfig) (s : NsWalk) (rest : NsRef → List Subnode) : Prop where
  pending : ∀ ref, Pending (s.subspaces ref) (rest ref)
  suffix : ∀ ref, rest ref <:+ (config.deref ref).subnodes

/-- What an iteration of these subspaces adds. -/
structure Adds (config : MarfsConfig) (n : Nat) (nodes : List Subnode)
    (rest rest' : NsRef → List Subnode) (added : List Nat) : Prop where
  done : rest' (.table n) = []
  frame : ∀ ref, ref ≠ .table n → (∀ m, Within config nodes m → ref ≠ .table m) → rest' ref = rest ref
  sound : ∀ m ∈ added, Within config nodes m
  enters : ∀ node ∈ nodes, (config.ns node.2).ghtarget = none → node.2 ∈ added
  complete : (∀ m, Within config nodes m → rest (.table m) = (config.ns m).subnodes) →
    added.Nodup ∧ ∀ m, Within config nodes m → m ∈ added

section Runs

variable {config : MarfsConfig} {start : NsRef} {n m : Nat} {node : Subnode}
  {nodes : List Subnode} {rest rest₁ rest₂ : NsRef → List Subnode} {added added' : List Nat}

theorem NsWalk.At.step {s : NsWalk} (hat : s.At config rest) {subspaces : NsRef → Option (HashTable Nat)}
    {cur : NsRef} (hcur : s.curns = cur) (hnodes : rest cur = node :: nodes)
    (hpending : Pending (subspaces s.curns) nodes)
    (hkeep : ∀ ref, ref ≠ s.curns → subspaces ref = s.subspaces ref)
    (nslist : List NsRef) (curns : NsRef) :
    (NsWalk.mk subspaces nslist curns).At config fun ref => if ref = cur then nodes else rest ref := by
  rw [hcur] at hpending hkeep
  refine ⟨fun ref => ?_, fun ref => ?_⟩
  · by_cases href : ref = cur
    · rw [if_pos href, href]
      exact hpending
    · dsimp only
      rw [if_neg href, hkeep ref href]
      exact hat.pending ref
  · by_cases href : ref = cur
    · rw [if_pos href, href]
      exact (List.suffix_cons node nodes).trans (hnodes ▸ hat.suffix cur)
    · rw [if_neg href]
      exact hat.suffix ref

theorem Adds.skip (hghost : (config.ns node.2).ghtarget ≠ none) (hfar : ∀ m, Within config nodes m → m ≠ n)
    (h : Adds config n nodes (fun ref => if ref = .table n then nodes else rest ref) rest₂ added) :
    Adds config n (node :: nodes) rest rest₂ added := by
  have hrest {m : Nat} (hm : Within config (node :: nodes) m) : Within config nodes m := by
    rcases within_cons.1 hm with hm | hm
    · obtain ⟨_, hmem, hplain, -⟩ := hm
      exact absurd (List.mem_singleton.1 hmem ▸ hplain) hghost
    · exact hm
  refine ⟨h.done, fun ref hne hout => ?_, fun m hm => within_cons.2 (.inr (h.sound m hm)),
    fun node' hmem hplain => ?_, fun hfresh => ?_⟩
  · exact (h.frame ref hne fun m hm => hout m (within_cons.2 (.inr hm))).trans (if_neg hne)
  · rcases List.mem_cons.1 hmem with rfl | hmem
    · exact absurd hplain hghost
    · exact h.enters node' hmem hplain
  · obtain ⟨hnodup, hall⟩ := h.complete fun m hm =>
      (if_neg fun heq => hfar m hm (NsRef.table.inj heq)).trans (hfresh m (within_cons.2 (.inr hm)))
    exact ⟨hnodup, fun m hm => hall m (hrest hm)⟩

/-- A subspace is entered and left before the others come up. -/
theorem Adds.enter (hplain : (config.ns node.2).ghtarget = none)
    (hsuffix : rest (.table node.2) <:+ (config.ns node.2).subnodes)
    (hfar : ∀ m, Within config (node :: nodes) m → m ≠ n)
    (hnew : ¬Within config (config.ns node.2).subnodes node.2)
    (hapart : ∀ m, Within config [node] m → ¬Within config nodes m)
    (h : Adds config node.2 (rest (.table node.2)) (fun ref => if ref = .table n then nodes else rest ref)
      rest₁ added)
    (h' : Adds config n nodes rest₁ rest₂ added') :
    Adds config n (node :: nodes) rest rest₂ (node.2 :: added ++ added') := by
  have hdown {m : Nat} (hm : Within config (rest (.table node.2)) m) :
      Within config (config.ns node.2).subnodes m := hm.mono hsuffix.subset
  have hbelow {m : Nat} (hm : m = node.2 ∨ Within config (config.ns node.2).subnodes m) :
      Within config (node :: nodes) m := within_cons.2 (.inl ((within_singleton hplain).2 hm))
  have hwithin : ∀ m ∈ node.2 :: added, Within config [node] m := fun m hm =>
    (within_singleton hplain).2 <| (List.mem_cons.1 hm).imp id fun hm => hdown (h.sound m hm)
  refine ⟨h'.done, fun ref hne hout => ?_, fun m hm => ?_, fun node' hmem hplain' => ?_, fun hfresh => ?_⟩
  · have hsub : ref ≠ .table node.2 := hout node.2 (hbelow (.inl rfl))
    rw [h'.frame ref hne fun m hm => hout m (within_cons.2 (.inr hm)),
      h.frame ref hsub fun m hm => hout m (hbelow (.inr (hdown hm)))]
    exact if_neg hne
  · rcases List.mem_append.1 hm with hm | hm
    · exact within_cons.2 (.inl (hwithin m hm))
    · exact within_cons.2 (.inr (h'.sound m hm))
  · rcases List.mem_cons.1 hmem with rfl | hmem
    · exact List.mem_append_left _ List.mem_cons_self
    · exact List.mem_append_right _ (h'.enters node' hmem hplain')
  · have hkept {m : Nat} (hm : Within config (node :: nodes) m) :
        (if NsRef.table m = .table n then nodes else rest (.table m)) = (config.ns m).subnodes :=
      (if_neg fun heq => hfar m hm (NsRef.table.inj heq)).trans (hfresh m hm)
    obtain ⟨hnodup, hall⟩ := h.complete fun m hm => hkept (hbelow (.inr (hdown hm)))
    obtain ⟨hnodup', hall'⟩ := h'.complete fun m hm => by
      have hother : ¬Within config [node] m := fun hm' => hapart m hm' hm
      rw [h.frame (.table m) (fun heq => hother ((within_singleton hplain).2 (.inl (NsRef.table.inj heq))))
        fun m' hm' heq => hother (NsRef.table.inj heq ▸ (within_singleton hplain).2 (.inr (hdown hm')))]
      exact hkept (within_cons.2 (.inr hm))
    refine ⟨List.nodup_append.2 ⟨List.nodup_cons.2 ⟨fun hm => hnew (hdown (h.sound _ hm)), hnodup⟩, hnodup',
      ?_⟩, fun m hm => ?_⟩
    · rintro m hm _ hm' rfl
      exact hapart m (hwithin m hm) (h'.sound m hm')
    · rcases within_cons.1 hm with hm | hm
      · refine List.mem_append_left _ (List.mem_cons.2 (((within_singleton hplain).1 hm).imp id fun hm => ?_))
        exact hall m (by rwa [hfresh node.2 (hbelow (.inl rfl))])
      · exact List.mem_append_right _ (hall' m hm)

theorem subspace_inj (hnm : config.Named) {node' : Subnode} (h : node ∈ (config.ns n).subnodes)
    (h' : node' ∈ (config.ns n).subnodes) (heq : node.2 = node'.2) : node = node' := by
  obtain ⟨repo, path, hrepo, hsep, hpath, hid⟩ := hnm.linked n node h
  obtain ⟨repo', path', hrepo', hsep', hpath', hid'⟩ := hnm.linked n node' h'
  rw [← heq, hid] at hid'
  have hhead {path name : List Char} (h : path = [] ∨ path.head? = some '/') :
      (path ++ '/' :: name).head? = some '/' := by
    rcases h with rfl | h
    · rfl
    · rw [head?_append, h]
      rfl
  have hlast {as name name' : List Char} (hname : '/' ∉ name)
      (h : '/' :: name = as ++ '/' :: name') : name = name' := by
    cases as with
    | nil => exact (List.cons.inj h).2
    | cons c as =>
      refine absurd ?_ hname
      rw [(List.cons.inj h).2]
      exact List.mem_append_right as List.mem_cons_self
  refine hnm.sibling h h' ?_
  have hpaths := idString_path hrepo hsep hrepo' hsep' (hhead hpath) (hhead hpath') hid'
  rcases List.append_eq_append_iff.1 hpaths with ⟨as, -, has⟩ | ⟨as, -, has⟩
  · exact hlast (hnm.name n node h).2 has
  · exact (hlast (hnm.name n node' h').2 has).symm

end Runs

section Iterates

variable {config : MarfsConfig} {height : Nat → Nat} {bound : Nat} (hnm : config.Named)
  (hheight : ∀ n parent, (config.ns n).pnamespace = some parent → height parent < height n)
  (hbound : ∀ n node, node ∈ (config.ns n).subnodes → height node.2 < bound)

include hnm hheight hbound

/-- From a namespace the loop comes back to it, with all that its subspaces add. -/
theorem NsWalk.At.iterates (start : NsRef) {n : Nat} {s : NsWalk} {rest : NsRef → List Subnode}
    (hstart : ∀ m, Within config (config.ns n).subnodes m → start ≠ .table m)
    (hat : s.At config rest) (hcur : s.curns = .table n) :
    ∃ s' rest' added, LoopStep.Reaches (nslistStep config true start) s s' ∧ s'.At config rest' ∧
      s'.curns = .table n ∧ s'.nslist = s.nslist ++ added.map .table ∧
      Adds config n (rest (.table n)) rest rest' added := by
  induction hk : bound - height n using Nat.strong_induction_on generalizing n s rest with
  | _ k ih =>
    subst hk
    induction hnodes : rest (.table n) generalizing s rest with
    | nil =>
      exact ⟨s, rest, [], .refl, hat, hcur, (List.append_nil _).symm, hnodes, fun _ _ _ => rfl,
        by simp, by simp, fun _ => ⟨.nil, by simp [Within]⟩⟩
    | cons node nodes ihnodes =>
      have hsub : node :: nodes <:+ (config.ns n).subnodes := hnodes ▸ hat.suffix (.table n)
      have hmem : node ∈ (config.ns n).subnodes := hsub.subset mem_cons_self
      have hfar (m : Nat) (hm : Within config (node :: nodes) m) : m ≠ n :=
        (hm.mono hsub.subset).ne hheight hnm.toTree
      have hpend : Pending (s.subspaces s.curns) (node :: nodes) := hcur ▸ hnodes ▸ hat.pending (.table n)
      obtain ⟨subspaces, hpending, hkeep, hstep⟩ := nslistStep_cons config start hpend
      have hat₁ := hat.step hcur hnodes hpending hkeep
      by_cases hplain : (config.ns node.2).ghtarget = none
      · rw [if_pos hplain] at hstep
        have hne : node.2 ≠ n := hfar node.2 (within_here mem_cons_self hplain)
        have hdeeper : bound - height node.2 < bound - height n := by
          have hlt := hheight _ _ (hnm.child n node hmem)
          have hlt' := hbound n node hmem
          omega
        obtain ⟨s₂, rest₂, added, hreach, hat₂, hcur₂, hlist₂, hadds⟩ := ih _ hdeeper
          (fun m hm => hstart m (.down hmem hplain hm)) (hat₁ _ (.table node.2)) rfl rfl
        rw [if_neg fun heq => hne (NsRef.table.inj heq)] at hadds
        -- back to the parent
        have hleave : nslistStep config true start s₂ = .next { s₂ with curns := .table n } := by
          rw [nslistStep_nil (hcur₂ ▸ hadds.done ▸ hat₂.pending (.table node.2)), NsWalk.leave, hcur₂,
            if_neg (hstart node.2 (within_here hmem hplain)).symm]
          simp only [MarfsConfig.deref, hnm.child n node hmem]
        have hsuffix : rest (.table node.2) <:+ (config.ns node.2).subnodes := hat.suffix (.table node.2)
        have hnodes₂ : rest₂ (.table n) = nodes := by
          rw [hadds.frame (.table n) (fun heq => hne (NsRef.table.inj heq).symm) fun m hm heq =>
            hfar m (.down mem_cons_self hplain (hm.mono hsuffix.subset)) (NsRef.table.inj heq).symm]
          exact if_pos rfl
        obtain ⟨s₃, rest₃, added', hreach', hat₃, hcur₃, hlist₃, hadds'⟩ :=
          ihnodes (s := { s₂ with curns := .table n }) ⟨hat₂.pending, hat₂.suffix⟩ rfl hnodes₂
        refine ⟨s₃, rest₃, node.2 :: added ++ added', ?_, hat₃, hcur₃, ?_,
          hadds.enter hplain hsuffix hfar (fun hm => ?_) (fun m hm hm' => ?_) hadds'⟩
        · exact .head hstep (hreach.trans (.head hleave hreach'))
        · rw [hlist₃, hlist₂]
          simp
        · exact hm.ne hheight hnm.toTree rfl
        · obtain ⟨node', hmem', hm'⟩ := hm'
          have hm' : Within config [node'] m := ⟨node', mem_cons_self, hm'⟩
          have hother : node' ∈ (config.ns n).subnodes := hsub.subset (mem_cons_of_mem _ hmem')
          have heq := subspace_inj hnm hmem hother (hm.disjoint hheight hnm.toTree hmem hother hm')
          have hnodup : (node :: nodes).Nodup := (Nodup.of_map _ (hnm.distinct n)).sublist hsub.sublist
          exact (List.nodup_cons.1 hnodup).1 (heq ▸ hmem')
      · rw [if_neg hplain] at hstep
        obtain ⟨s', rest', added, hreach, hat', hcur', hlist, hadds⟩ :=
          ihnodes (hat₁ _ s.curns) hcur (if_pos rfl)
        exact ⟨s', rest', added, .head hstep hreach, hat', hcur', hlist,
          hadds.skip hplain fun m hm => hfar m (within_cons.2 (.inr hm))⟩

/-- From a ghost copy the loop ends behind the root, whatever it came to. -/
theorem NsWalk.At.ends {n : Nat} {s : NsWalk} {rest : NsRef → List Subnode}
    (copy : MarfsNs) (hat : s.At config rest) (hcur : s.curns = .table n) :
    ∃ more, LoopStep.Ends (nslistStep config true (.copy copy)) s (some (s.nslist ++ more)) ∧
      ∀ node ∈ rest (.table n), (config.ns node.2).ghtarget = none → .table node.2 ∈ more := by
  induction hk : height n using Nat.strong_induction_on generalizing n s rest with
  | _ k ih =>
    subst hk
    obtain ⟨s', rest', added, hreach, hat', hcur', hlist, hadds⟩ := hat.iterates hnm
      hheight hbound (.copy copy) (fun _ _ h => by cases h) hcur
    have hlast : nslistStep config true (.copy copy) s' = s'.leave config (.copy copy) :=
      nslistStep_nil (hcur' ▸ hadds.done ▸ hat'.pending (.table n))
    rw [NsWalk.leave, hcur', if_neg (by simp)] at hlast
    have henters : ∀ node ∈ rest (.table n), (config.ns node.2).ghtarget = none →
        NsRef.table node.2 ∈ added.map NsRef.table :=
      fun node hnode hplain => List.mem_map_of_mem (hadds.enters node hnode hplain)
    cases hparent : (config.ns n).pnamespace with
    | none =>
      simp only [MarfsConfig.deref, hparent] at hlast
      exact ⟨_, ⟨s', hreach, hlist ▸ hlast⟩, henters⟩
    | some parent =>
      simp only [MarfsConfig.deref, hparent] at hlast
      obtain ⟨more, hends, -⟩ := ih (height parent) (hheight n parent hparent)
        (s := { s' with curns := .table parent }) ⟨hat'.pending, hat'.suffix⟩ rfl rfl
      refine ⟨added.map .table ++ more, ?_, fun node hnode hplain =>
        List.mem_append_left more (henters node hnode hplain)⟩
      rw [← List.append_assoc, ← hlist]
      exact (LoopStep.Ends.of_reaches (hreach.tail hlast)).2 hends

end Iterates

/-! ## The list -/

section Listed

variable {config : MarfsConfig}

def nslist (identifier : List Char → Id) (config : MarfsConfig) (recurse : Bool) (fuel : Nat)
    (start : NsRef) : Option (Option (List NsRef)) :=
  LoopStep.iterate (nslistStep config recurse start) fuel (.enter config identifier start)

end Listed

end Marfs.Rman
