import Marfs.Config.Ghost
import Marfs.Config.Loop
import Marfs.Hash.Construction

/-!
# Duplicated positions

Here a position has the table its namespace is looked up with: NULL where there are no subspaces, in the
namespaces of a config and in the ghost copies of `config_enterns`.  A duplicate shares the table of a
standard namespace.  For a ghost copy it builds one, also without subspaces, and a lookup in an empty table
reads behind it (`duplicate_same_iff`).
-/

namespace Marfs.Config

open Marfs.Hash List
open Marfs.Path (firstElem nextElem skipSep)

/-! ## Subspace tables -/

inductive Looked where
  | found (subspace : Nat)
  | missing
  -- a read behind the table
  | outside
  deriving DecidableEq, Repr

def subspaceNodes (nodes : List (List Char × Nat)) : List (HashNode Nat) :=
  nodes.map fun node => { name := node.1, weight := 0, content := node.2 }

structure TabledPosition where
  pos : MarfsPosition
  subspaces : Option (HashTable Nat)

section Tables

variable (identifier : List Char → Id)

def lookupSubspace (subspaces : Option (HashTable Nat)) (name : List Char) : Looked :=
  match subspaces with
  | none => .missing
  | some table =>
    match hashLookup identifier (table.vnodecount + 1) table name with
    | none => .outside
    | some (retval, nodenum) =>
      if retval ≠ 0 then .missing
      else
        match table.nodes[nodenum]? with
        | none => .outside
        | some node => .found node.content

/-- The table of a namespace of the config, or of a ghost copy made by `config_enterns`. -/
def buildSubspaces (nodes : List (List Char × Nat)) : Option (HashTable Nat) :=
  if nodes = [] then none else hashInit identifier (subspaceNodes nodes) true

def arrive (config : MarfsConfig) (pos : MarfsPosition) : TabledPosition :=
  ⟨pos, buildSubspaces identifier (config.deref pos.ns).subnodes⟩

/-- The position moves; the table goes with the namespace. -/
def TabledPosition.goto (config : MarfsConfig) (current : TabledPosition) (pos : MarfsPosition) :
    TabledPosition :=
  if pos.ns = current.pos.ns then ⟨pos, current.subspaces⟩ else arrive identifier config pos

def configDuplicateposition (config : MarfsConfig) (srcpos : TabledPosition) : Option TabledPosition :=
  if (config.deref srcpos.pos.ns).ghsource = none then some srcpos
  else do
    let subspaces ← hashInit identifier (subspaceNodes (config.deref srcpos.pos.ns).subnodes) true
    some { srcpos with subspaces := some subspaces }

end Tables

/-! ## The loops -/

/-- What comes of `config_shiftns`. -/
inductive TabledShift where
  | shifted (pos : TabledPosition) (subpath : List Char)
  | failed
  | crashed
  | outside

/-- What comes of `config_traverse`. -/
inductive TabledResult where
  | done (pos : TabledPosition) (subpath : List Char) (depth : Nat)
  | failed
  | crashed
  | outside

/-- The variables of the loop in `config_traverse`. -/
structure TabledState where
  state : TraverseState
  subspaces : Option (HashTable Nat)

section Loops

variable (identifier : List Char → Id) (mdal : Mdal) (config : MarfsConfig)

def tabledShiftStep (current : TabledPosition) (pathelem : List Char) :
    LoopStep (TabledPosition × List Char) TabledShift :=
  let pos := current.pos
  if pathelem = [] then .done (.shifted current pathelem)
  else if firstElem '/' pathelem = ['.', '.'] then
    match configEnterns config pos (config.deref pos.ns).pnamespace ['.', '.'] true true with
    | .entered pos => .next (arrive identifier config pos, nextElem '/' pathelem)
    | .exits =>
      match configValidatemnt config (some pos.ns) (nextElem '/' pathelem) with
      | none => .done .failed
      | some parsepath => .next (current, skipSep '/' parsepath)
    | .failed => .done .crashed
  else if firstElem '/' pathelem = ['.'] then .next (current, nextElem '/' pathelem)
  else
    match lookupSubspace identifier current.subspaces (firstElem '/' pathelem) with
    | .outside => .done .outside
    | .missing =>
      if mdal.pathfilter (config.deref pos.ns).prepo (firstElem '/' pathelem) then .done .failed
      else .done (.shifted current pathelem)
    | .found subspace =>
      match configEnterns config pos (some subspace) (firstElem '/' pathelem) false
          (nextElem '/' pathelem ≠ []) with
      | .entered pos => .next (arrive identifier config pos, nextElem '/' pathelem)
      | _ => .done .failed

def tabledShiftLoop : Nat → TabledPosition → List Char → TabledShift
  | 0, current, pathelem => .shifted current pathelem
  | fuel + 1, current, pathelem =>
    match tabledShiftStep identifier mdal config current pathelem with
    | .next (current, pathelem) => tabledShiftLoop fuel current pathelem
    | .done result => result

def tabledShiftns (current : TabledPosition) (subpath : List Char) : TabledShift :=
  tabledShiftLoop identifier mdal config subpath.length current subpath

/-- A pass that makes no call of `config_shiftns`. -/
def TabledPosition.follow (current : TabledPosition) :
    LoopStep TraverseState Traversed → LoopStep TabledState TabledResult
  | .next state => .next ⟨state, (current.goto identifier config state.pos).subspaces⟩
  | .done (.done pos subpath depth) => .done (.done (current.goto identifier config pos) subpath depth)
  | .done .failed => .done .failed
  | .done .crashed => .done .crashed

def tabledTraverseStep (linkchk : Nat) (current : TabledState) : LoopStep TabledState TabledResult :=
  let state := current.state
  let tabled : TabledPosition := ⟨state.pos, current.subspaces⟩
  let pathelem := state.pathelem
  if pathelem = [] then .done (.done tabled state.relpath state.depth)
  else if firstElem '/' pathelem = ['.', '.'] then
    if state.depth = 0 then
      match tabledShiftns identifier mdal config tabled pathelem with
      | .shifted pos parsepath =>
        if parsepath = pathelem then .done .failed
        else .next ⟨shiftState state pos.pos parsepath, pos.subspaces⟩
      | .failed => .done .failed
      | .crashed => .done .crashed
      | .outside => .done .outside
    else
      .next ⟨{ state with pathelem := nextElem '/' pathelem, depth := state.depth - 1, nonNS := false },
        current.subspaces⟩
  else if firstElem '/' pathelem = ['.'] then
    .next ⟨{ state with pathelem := nextElem '/' pathelem, nonNS := false }, current.subspaces⟩
  else if state.depth = 0 ∧ state.nonNS = false then
    match tabledShiftns identifier mdal config tabled pathelem with
    | .shifted pos shiftres =>
      if shiftres ≠ pathelem then .next ⟨shiftState state pos.pos shiftres, pos.subspaces⟩
      else pos.follow identifier config (enterElem mdal config linkchk { state with pos := pos.pos })
    | .failed => .done .failed
    | .crashed => .done .crashed
    | .outside => .done .outside
  else tabled.follow identifier config (enterElem mdal config linkchk state)

def tabledTraverse (fuel : Nat) (current : TabledPosition) (subpath : List Char) (linkchk : Nat) :
    Option TabledResult :=
  match current.follow identifier config (traverseEntry config current.pos subpath) with
  | .done result => some result
  | .next state => LoopStep.iterate (tabledTraverseStep identifier mdal config linkchk) fuel state

end Loops

/-! ## Positions that were not duplicated -/

def TabledPosition.Built (identifier : List Char → Id) (config : MarfsConfig)
    (current : TabledPosition) : Prop :=
  current.subspaces = buildSubspaces identifier (config.deref current.pos.ns).subnodes

def TabledShift.Inside (identifier : List Char → Id) (config : MarfsConfig) : TabledShift → Prop
  | .shifted pos _ => pos.Built identifier config
  | .outside => False
  | _ => True

def TabledResult.Inside (identifier : List Char → Id) (config : MarfsConfig) : TabledResult → Prop
  | .done pos _ _ => pos.Built identifier config
  | .outside => False
  | _ => True

section Built

variable {identifier : List Char → Id} {mdal : Mdal} {config : MarfsConfig} {current : TabledPosition}

theorem subspaces_vnodecount_pos {nodes : List (List Char × Nat)} {table : HashTable Nat}
    (h : hashInit identifier (subspaceNodes nodes) true = some table) (hne : nodes ≠ []) :
    0 < table.vnodecount := by
  obtain ⟨-, htables⟩ := hashInit_construction identifier (subspaceNodes nodes) true
  obtain ⟨hlen, hcnt, -⟩ := htables table h
  cases nodes with
  | nil => exact absurd rfl hne
  | cons node nodes =>
    have hone := hcnt 0 { name := node.1, weight := 0, content := node.2 } rfl
    rw [if_neg (Int.lt_irrefl 0), if_pos rfl] at hone
    have hle : table.vnodes.countP (fun vnode => vnode.nodenum = 0) ≤ table.vnodes.length :=
      countP_le_length
    omega

theorem TabledPosition.Built.lookup (h : current.Built identifier config) (name : List Char) :
    lookupSubspace identifier current.subspaces name ≠ .outside := by
  rw [h]
  unfold buildSubspaces
  by_cases hnil : (config.deref current.pos.ns).subnodes = []
  · rw [if_pos hnil]
    exact nofun
  rw [if_neg hnil]
  cases hinit : hashInit identifier (subspaceNodes (config.deref current.pos.ns).subnodes) true with
  | none => exact nofun
  | some table =>
    have hpos := subspaces_vnodecount_pos hinit hnil
    obtain ⟨retval, nodenum, node, hlook, hnode, -, -⟩ :=
      hashLookup_hashInit hinit hpos name (Nat.lt_succ_self table.vnodecount)
    obtain ⟨-, hnodes⟩ := hashInit_valid hinit
    unfold lookupSubspace
    dsimp only
    rw [hlook]
    dsimp only
    rw [hnodes, hnode]
    split
    · exact nofun
    · exact nofun

theorem TabledPosition.Built.goto (h : current.Built identifier config) (pos : MarfsPosition) :
    (current.goto identifier config pos).Built identifier config := by
  unfold TabledPosition.goto
  split
  · next hns =>
    unfold TabledPosition.Built at h ⊢
    rw [hns]
    exact h
  · rfl

theorem TabledPosition.goto_pos (pos : MarfsPosition) : (current.goto identifier config pos).pos = pos := by
  unfold TabledPosition.goto
  split <;> rfl

theorem tabledShiftStep_inside (mdal : Mdal) (h : current.Built identifier config) (pathelem : List Char) :
    (tabledShiftStep identifier mdal config current pathelem).Comes
      (fun next => next.1.Built identifier config) (TabledShift.Inside identifier config) := by
  have hlook := h.lookup (firstElem '/' pathelem)
  unfold tabledShiftStep
  dsimp only
  by_cases hnil : pathelem = []
  · rw [if_pos hnil]
    exact h
  rw [if_neg hnil]
  by_cases hup : firstElem '/' pathelem = ['.', '.']
  · rw [if_pos hup]
    cases configEnterns config current.pos (config.deref current.pos.ns).pnamespace ['.', '.'] true
      true with
    | entered pos => exact rfl
    | exits =>
      dsimp only
      cases configValidatemnt config (some current.pos.ns) (nextElem '/' pathelem) with
      | none => trivial
      | some parsepath => exact h
    | failed => trivial
  rw [if_neg hup]
  by_cases hhere : firstElem '/' pathelem = ['.']
  · rw [if_pos hhere]
    exact h
  rw [if_neg hhere]
  cases hlooked : lookupSubspace identifier current.subspaces (firstElem '/' pathelem) with
  | outside => exact absurd hlooked hlook
  | missing =>
    dsimp only
    split_ifs
    · trivial
    · exact h
  | found subspace =>
    dsimp only
    cases configEnterns config current.pos (some subspace) (firstElem '/' pathelem) false
      (decide (nextElem '/' pathelem ≠ [])) with
    | entered pos => exact rfl
    | exits => trivial
    | failed => trivial

variable {fuel linkchk : Nat}

theorem tabledShiftLoop_inside (h : current.Built identifier config) (pathelem : List Char) :
    (tabledShiftLoop identifier mdal config fuel current pathelem).Inside identifier config := by
  induction fuel generalizing current pathelem with
  | zero => exact h
  | succ fuel ih =>
    have hstep := tabledShiftStep_inside mdal h pathelem
    rw [tabledShiftLoop]
    cases hpass : tabledShiftStep identifier mdal config current pathelem with
    | next next =>
      rw [hpass] at hstep
      exact ih hstep next.2
    | done result =>
      rw [hpass] at hstep
      exact hstep

def TabledState.Built (identifier : List Char → Id) (config : MarfsConfig) (current : TabledState) :
    Prop :=
  (⟨current.state.pos, current.subspaces⟩ : TabledPosition).Built identifier config

theorem TabledPosition.Built.follow (h : current.Built identifier config)
    (pass : LoopStep TraverseState Traversed) :
    (current.follow identifier config pass).Comes (TabledState.Built identifier config)
      (TabledResult.Inside identifier config) := by
  cases pass with
  | next state =>
    have hgoto := h.goto state.pos
    unfold TabledPosition.Built at hgoto
    rw [goto_pos] at hgoto
    exact hgoto
  | done result =>
    cases result with
    | done pos subpath depth => exact h.goto pos
    | failed => trivial
    | crashed => trivial

theorem tabledTraverseStep_inside (current : TabledState) (h : current.Built identifier config) :
    (tabledTraverseStep identifier mdal config linkchk current).Comes
      (TabledState.Built identifier config) (TabledResult.Inside identifier config) := by
  have hshift : (tabledShiftns identifier mdal config ⟨current.state.pos, current.subspaces⟩
      current.state.pathelem).Inside identifier config := tabledShiftLoop_inside h _
  unfold tabledTraverseStep
  dsimp only
  by_cases hnil : current.state.pathelem = []
  · rw [if_pos hnil]
    exact h
  rw [if_neg hnil]
  by_cases hup : firstElem '/' current.state.pathelem = ['.', '.']
  · rw [if_pos hup]
    by_cases hdep : current.state.depth = 0
    · rw [if_pos hdep]
      cases hshifted : tabledShiftns identifier mdal config ⟨current.state.pos, current.subspaces⟩
        current.state.pathelem with
      | shifted pos parsepath =>
        rw [hshifted] at hshift
        dsimp only
        split_ifs
        · trivial
        · exact hshift
      | failed => trivial
      | crashed => trivial
      | outside =>
        rw [hshifted] at hshift
        exact hshift
    · rw [if_neg hdep]
      exact h
  rw [if_neg hup]
  by_cases hhere : firstElem '/' current.state.pathelem = ['.']
  · rw [if_pos hhere]
    exact h
  rw [if_neg hhere]
  by_cases hns : current.state.depth = 0 ∧ current.state.nonNS = false
  · rw [if_pos hns]
    cases hshifted : tabledShiftns identifier mdal config ⟨current.state.pos, current.subspaces⟩
      current.state.pathelem with
    | shifted pos shiftres =>
      rw [hshifted] at hshift
      dsimp only
      split_ifs
      · exact hshift
      · exact TabledPosition.Built.follow hshift _
    | failed => trivial
    | crashed => trivial
    | outside =>
      rw [hshifted] at hshift
      exact hshift
  · rw [if_neg hns]
    exact TabledPosition.Built.follow h _

theorem tabledTraverse_inside (h : current.Built identifier config) {subpath : List Char}
    {result : TabledResult}
    (hres : tabledTraverse identifier mdal config fuel current subpath linkchk = some result) :
    result.Inside identifier config := by
  have hent := h.follow (traverseEntry config current.pos subpath)
  unfold tabledTraverse at hres
  cases hfollow : current.follow identifier config (traverseEntry config current.pos subpath) with
  | done ended =>
    rw [hfollow] at hent hres
    exact Option.some.inj hres ▸ hent
  | next state =>
    rw [hfollow] at hent hres
    exact LoopStep.iterate_invariant (TabledState.Built identifier config)
      (TabledResult.Inside identifier config) tabledTraverseStep_inside hent hres

end Built

/-! ## The list of subspaces -/

def Traversed.seen : Traversed → Option (Option (MarfsPosition × List Char × Nat))
  | .done pos subpath depth => some (some (pos, subpath, depth))
  | .failed => some none
  | .crashed => none

/-- What a caller sees of a traversal: the return value, and the position and the subpath. -/
def TabledResult.seen : TabledResult → Option (Option (MarfsPosition × List Char × Nat))
  | .done pos subpath depth => some (some (pos.pos, subpath, depth))
  | .failed => some none
  | .crashed => none
  | .outside => none

/-- The names of the subspaces of a namespace differ. -/
def MarfsConfig.Distinct (config : MarfsConfig) (ns : NsRef) : Prop :=
  ((config.deref ns).subnodes.map Prod.fst).Nodup

section Agreement

variable {identifier : List Char → Id} {mdal : Mdal} {config : MarfsConfig} {current : TabledPosition}

variable {nodes : List (List Char × Nat)} {node : List Char × Nat} {pos pos' : MarfsPosition}
  {nextns : Option Nat} {relpath : List Char} {ascending updatectxt : Bool}

theorem mem_allVnodes (identifier : List Char → Id) (h : node ∈ nodes) (ratio curnode : Nat) :
    ∃ i, nodes[i]? = some node ∧
      { id := identifier node.1, nodenum := curnode + i } ∈
        allVnodes identifier true ratio curnode (subspaceNodes nodes) := by
  induction nodes generalizing curnode with
  | nil => cases h
  | cons first nodes ih =>
    rcases List.mem_cons.1 h with rfl | hmem
    · exact ⟨0, rfl, mem_append_left _ mem_cons_self⟩
    · obtain ⟨i, hi, hvn⟩ := ih hmem (curnode + 1)
      refine ⟨i + 1, hi, mem_append_right _ ?_⟩
      rwa [Nat.add_assoc, Nat.add_comm 1 i] at hvn

theorem lookup_of_mem (hdist : (nodes.map Prod.fst).Nodup) (h : node ∈ nodes) :
    nodes.lookup node.1 = some node.2 := by
  induction nodes with
  | nil => cases h
  | cons first nodes ih =>
    obtain ⟨hfst, hrest⟩ := List.nodup_cons.1 hdist
    rcases List.mem_cons.1 h with rfl | hmem
    · exact lookup_cons_self
    · have hne : (node.1 == first.1) = false := by
        refine beq_eq_false_iff_ne.2 fun heq => hfst ?_
        rw [← heq]
        exact mem_map_of_mem hmem
      rw [lookup_cons, hne]
      exact ih hrest hmem

theorem TabledPosition.Built.lookup_eq (h : current.Built identifier config)
    (hdist : config.Distinct current.pos.ns) (name : List Char) :
    lookupSubspace identifier current.subspaces name =
      match (config.deref current.pos.ns).subnodes.lookup name with
      | some subspace => .found subspace
      | none => .missing := by
  unfold MarfsConfig.Distinct at hdist
  rw [h]
  generalize (config.deref current.pos.ns).subnodes = nodes at hdist
  unfold buildSubspaces
  by_cases hnil : nodes = []
  · rw [if_pos hnil, hnil]
    rfl
  rw [if_neg hnil]
  have hsome : (hashInit identifier (subspaceNodes nodes) true).isSome := by
    refine hashInit_isSome identifier (fun node hnode => ?_) (Or.inl rfl)
    obtain ⟨node, -, rfl⟩ := List.mem_map.1 hnode
    exact le_refl 0
  obtain ⟨table, hinit⟩ := Option.isSome_iff_exists.1 hsome
  obtain ⟨retval, nodenum, node, hlook, hnode, hpres, habsent⟩ := hashLookup_hashInit hinit
    (subspaces_vnodecount_pos hinit hnil) name (Nat.lt_succ_self table.vnodecount)
  obtain ⟨-, hnodes⟩ := hashInit_valid hinit
  obtain ⟨-, htables⟩ := hashInit_construction identifier (subspaceNodes nodes) true
  obtain ⟨-, -, hperm, -⟩ := htables table hinit
  rw [hinit]
  unfold lookupSubspace
  dsimp only
  rw [hlook]
  dsimp only
  rw [hnodes, hnode]
  by_cases hthere : table.Present (identifier name) name
  · obtain ⟨rfl, hname⟩ := hpres hthere
    obtain ⟨node', hmem, rfl⟩ := List.mem_map.1 (mem_of_getElem? hnode)
    rw [← hname, lookup_of_mem hdist hmem]
    rfl
  · obtain ⟨rfl, -⟩ := habsent hthere
    have hnone : nodes.lookup name = none := by
      refine List.lookup_eq_none_iff.2 fun node' hmem => ?_
      refine bne_iff_ne.2 fun heq => hthere ?_
      subst heq
      obtain ⟨i, hi, hvn⟩ := mem_allVnodes identifier hmem
        (weightratio (totalWeight (subspaceNodes nodes))) 0
      refine ⟨_, hperm.mem_iff.2 hvn, { name := node'.1, weight := 0, content := node'.2 }, ?_, rfl,
        rfl⟩
      rw [hnodes, Nat.zero_add, subspaceNodes, List.getElem?_map, hi]
      rfl
    rw [hnone]
    rfl

/-- The position has the table of its namespace, and the names in it differ. -/
structure TabledPosition.Sound (identifier : List Char → Id) (config : MarfsConfig)
    (current : TabledPosition) : Prop where
  built : current.Built identifier config
  distinct : config.Distinct current.pos.ns

inductive TabledShift.Agrees (identifier : List Char → Id) (config : MarfsConfig) :
    TabledShift → Shifted → Prop
  | shifted {pos : TabledPosition} (subpath : List Char) (sound : pos.Sound identifier config) :
    Agrees identifier config (.shifted pos subpath) (.shifted pos.pos subpath)
  | failed : Agrees identifier config .failed .failed
  | crashed : Agrees identifier config .crashed .crashed

inductive PassAgrees (identifier : List Char → Id) (config : MarfsConfig) :
    LoopStep TabledState TabledResult → LoopStep TraverseState Traversed → Prop
  | next {current : TabledState}
    (sound : (⟨current.state.pos, current.subspaces⟩ : TabledPosition).Sound identifier config) :
    PassAgrees identifier config (.next current) (.next current.state)
  | done {result : TabledResult} {result' : Traversed} (seen : result.seen = result'.seen) :
    PassAgrees identifier config (.done result) (.done result')

theorem enterns_distinct (hconf : ∀ n, config.Distinct (.table n))
    (h : configEnterns config pos nextns relpath ascending updatectxt = .entered pos') :
    config.Distinct pos'.ns := by
  have hcopy : ∀ (ns : MarfsNs) (target : Nat), ns.subnodes = config.nonGhosts target →
      config.Distinct (.copy ns) := by
    intro ns target hsubnodes
    unfold MarfsConfig.Distinct MarfsConfig.deref
    dsimp only
    rw [hsubnodes]
    exact (hconf target).sublist (List.filter_sublist.map Prod.fst)
  unfold configEnterns at h
  dsimp only at h
  split at h
  · split at h
    · cases h
    · split at h
      · rw [enterStandard_ns h]
        exact hconf _
      · unfold enterGhost at h
        dsimp only at h
        split at h
        · cases h
        · rw [refresh_ns h]
          exact hcopy _ _ rfl
  · split at h
    · split at h
      · rw [refresh_ns h]
        exact hconf _
      · cases h
    · split at h
      · cases h
      · unfold moveGhost at h
        dsimp only at h
        split at h
        · cases h
        · split at h
          · cases h
          · rw [refresh_ns h]
            exact hcopy _ _ rfl

theorem arrive_sound (hconf : ∀ n, config.Distinct (.table n))
    (h : configEnterns config pos nextns relpath ascending updatectxt = .entered pos') :
    (arrive identifier config pos').Sound identifier config :=
  ⟨rfl, enterns_distinct hconf h⟩

theorem tabledShiftLoop_agrees (hconf : ∀ n, config.Distinct (.table n)) {fuel : Nat}
    (h : current.Sound identifier config) (pathelem : List Char) :
    (tabledShiftLoop identifier mdal config fuel current pathelem).Agrees identifier config
      (shiftLoop mdal config fuel current.pos pathelem) := by
  induction fuel generalizing current pathelem with
  | zero => exact .shifted pathelem h
  | succ fuel ih =>
    have hlook := h.built.lookup_eq h.distinct (firstElem '/' pathelem)
    rw [tabledShiftLoop, shiftLoop, tabledShiftStep, shiftStep]
    by_cases hnil : pathelem = []
    · rw [if_pos hnil, if_pos hnil]
      exact .shifted pathelem h
    rw [if_neg hnil, if_neg hnil]
    by_cases hup : firstElem '/' pathelem = ['.', '.']
    · rw [if_pos hup, if_pos hup]
      cases hent : configEnterns config current.pos (config.deref current.pos.ns).pnamespace
        ['.', '.'] true true with
      | entered pos => exact ih (arrive_sound hconf hent) _
      | exits =>
        dsimp only
        cases configValidatemnt config (some current.pos.ns) (nextElem '/' pathelem) with
        | none => exact .failed
        | some parsepath => exact ih h _
      | failed => exact .crashed
    rw [if_neg hup, if_neg hup]
    by_cases hhere : firstElem '/' pathelem = ['.']
    · rw [if_pos hhere, if_pos hhere]
      exact ih h _
    rw [if_neg hhere, if_neg hhere, hlook]
    cases (config.deref current.pos.ns).subnodes.lookup (firstElem '/' pathelem) with
    | none =>
      dsimp only
      by_cases hfilt : mdal.pathfilter (config.deref current.pos.ns).prepo
          (firstElem '/' pathelem) = true
      · rw [if_pos hfilt, if_pos hfilt]
        exact .failed
      · rw [if_neg hfilt, if_neg hfilt]
        exact .shifted pathelem h
    | some subspace =>
      dsimp only
      cases hent : configEnterns config current.pos (some subspace) (firstElem '/' pathelem) false
        (decide (nextElem '/' pathelem ≠ [])) with
      | entered pos => exact ih (arrive_sound hconf hent) _
      | exits => exact .failed
      | failed => exact .failed

def Stays (config : MarfsConfig) (ns : NsRef) : LoopStep TraverseState Traversed → Prop :=
  LoopStep.Comes (fun state => state.pos.ns = ns ∨ state.pos.ns = .table config.rootns) fun _ => True

theorem TabledPosition.Sound.follow (hconf : ∀ n, config.Distinct (.table n))
    (h : current.Sound identifier config) {pass : LoopStep TraverseState Traversed}
    (hstays : Stays config current.pos.ns pass) :
    PassAgrees identifier config (current.follow identifier config pass) pass := by
  cases pass with
  | next state =>
    have hbuilt := h.built.goto state.pos
    unfold TabledPosition.Built at hbuilt
    rw [goto_pos] at hbuilt
    refine .next ⟨hbuilt, ?_⟩
    have hns : state.pos.ns = current.pos.ns ∨ state.pos.ns = .table config.rootns := hstays
    rcases hns with hns | hns
    · dsimp only
      rw [hns]
      exact h.distinct
    · dsimp only
      rw [hns]
      exact hconf _
  | done result =>
    cases result with
    | done pos subpath depth =>
      refine .done ?_
      dsimp only [TabledResult.seen, Traversed.seen]
      rw [goto_pos]
    | failed => exact .done rfl
    | crashed => exact .done rfl

theorem enterElem_stays (linkchk : Nat) (state : TraverseState) :
    Stays config state.pos.ns (enterElem mdal config linkchk state) := by
  unfold enterElem
  dsimp only
  split
  · split
    · trivial
    · unfold substituteLink
      dsimp only
      split_ifs
      · trivial
      · split
        · trivial
        · exact Or.inr rfl
      · split
        · trivial
        · exact Or.inl rfl
      · exact Or.inl rfl
    · exact Or.inl rfl
  · exact Or.inl rfl

theorem traverseEntry_stays (pos : MarfsPosition) (subpath : List Char) :
    Stays config pos.ns (traverseEntry config pos subpath) := by
  unfold traverseEntry
  by_cases hctxt : pos.ctxt = none
  · rw [if_pos hctxt]
    trivial
  rw [if_neg hctxt]
  by_cases habs : subpath.head? = some '/'
  · rw [if_pos habs]
    cases configValidatemnt config none subpath with
    | none => trivial
    | some parsepath =>
      dsimp only
      by_cases hnil : parsepath = []
      · rw [if_pos hnil]
        trivial
      · rw [if_neg hnil]
        by_cases hroot : pos.ns ≠ .table config.rootns ∨ pos.depth ≠ 0
        · rw [if_pos hroot]
          exact Or.inr rfl
        · rw [if_neg hroot]
          exact Or.inl rfl
  · rw [if_neg habs]
    exact Or.inl rfl

theorem tabledTraverseStep_agrees (mdal : Mdal) (hconf : ∀ n, config.Distinct (.table n)) (linkchk : Nat)
    (current : TabledState)
    (h : (⟨current.state.pos, current.subspaces⟩ : TabledPosition).Sound identifier config) :
    PassAgrees identifier config (tabledTraverseStep identifier mdal config linkchk current)
      (traverseStep mdal config linkchk current.state) := by
  have hshift : (tabledShiftns identifier mdal config ⟨current.state.pos, current.subspaces⟩
      current.state.pathelem).Agrees identifier config
        (configShiftns mdal config current.state.pos current.state.pathelem) :=
    tabledShiftLoop_agrees hconf h _
  generalize hshifted : tabledShiftns identifier mdal config ⟨current.state.pos, current.subspaces⟩
    current.state.pathelem = shifted at hshift
  generalize hshift' : configShiftns mdal config current.state.pos current.state.pathelem = shifted'
    at hshift
  unfold tabledTraverseStep traverseStep
  dsimp only
  rw [hshifted, hshift']
  by_cases hnil : current.state.pathelem = []
  · rw [if_pos hnil, if_pos hnil]
    exact .done rfl
  rw [if_neg hnil, if_neg hnil]
  by_cases hup : firstElem '/' current.state.pathelem = ['.', '.']
  · rw [if_pos hup, if_pos hup]
    by_cases hdep : current.state.depth = 0
    · rw [if_pos hdep, if_pos hdep]
      cases hshift with
      | shifted subpath sound =>
        dsimp only
        by_cases hsame : subpath = current.state.pathelem
        · rw [if_pos hsame, if_pos hsame]
          exact .done rfl
        · rw [if_neg hsame, if_neg hsame]
          exact .next ⟨sound.built, sound.distinct⟩
      | failed => exact .done rfl
      | crashed => exact .done rfl
    · rw [if_neg hdep, if_neg hdep]
      exact .next h
  rw [if_neg hup, if_neg hup]
  by_cases hhere : firstElem '/' current.state.pathelem = ['.']
  · rw [if_pos hhere, if_pos hhere]
    exact .next h
  rw [if_neg hhere, if_neg hhere]
  by_cases hns : current.state.depth = 0 ∧ current.state.nonNS = false
  · rw [if_pos hns, if_pos hns]
    cases hshift with
    | shifted subpath sound =>
      dsimp only
      by_cases hsame : subpath ≠ current.state.pathelem
      · rw [if_pos hsame, if_pos hsame]
        exact .next ⟨sound.built, sound.distinct⟩
      · rw [if_neg hsame, if_neg hsame]
        exact sound.follow hconf (enterElem_stays linkchk _)
    | failed => exact .done rfl
    | crashed => exact .done rfl
  · rw [if_neg hns, if_neg hns]
    exact TabledPosition.Sound.follow hconf h (enterElem_stays linkchk _)

theorem tabledTraverse_agrees (hconf : ∀ n, config.Distinct (.table n)) (h : current.Sound identifier config)
    (fuel : Nat) (subpath : List Char) (linkchk : Nat) :
    (tabledTraverse identifier mdal config fuel current subpath linkchk).map TabledResult.seen =
      (configTraverse mdal config fuel current.pos subpath linkchk).map Traversed.seen := by
  have hloop : ∀ fuel (state : TabledState),
      (⟨state.state.pos, state.subspaces⟩ : TabledPosition).Sound identifier config →
      (LoopStep.iterate (tabledTraverseStep identifier mdal config linkchk) fuel state).map
          TabledResult.seen =
        (traverseLoop mdal config linkchk fuel state.state).map Traversed.seen := by
    intro fuel
    induction fuel with
    | zero => exact fun _ _ => rfl
    | succ fuel ih =>
      intro state hstate
      have hpass := tabledTraverseStep_agrees mdal hconf linkchk state hstate
      rw [LoopStep.iterate, traverseLoop]
      generalize tabledTraverseStep identifier mdal config linkchk state = pass at hpass
      generalize traverseStep mdal config linkchk state.state = pass' at hpass
      cases hpass with
      | next sound => exact ih _ sound
      | done seen => exact congrArg some seen
  have hent := h.follow hconf (traverseEntry_stays current.pos subpath)
  rw [configTraverse_eq_entry, tabledTraverse]
  generalize current.follow identifier config (traverseEntry config current.pos subpath) = pass
    at hent
  generalize traverseEntry config current.pos subpath = pass' at hent
  cases hent with
  | next sound => exact hloop fuel _ sound
  | done seen => exact congrArg some seen

end Agreement

theorem sampleTree_agrees :
    (tabledTraverse collidingIdentifier ⟨fun _ _ => false, fun _ _ => .other⟩ sampleTree 9
        (arrive collidingIdentifier sampleTree (configEstablishposition sampleTree))
        ['g', '/', 'b', '/', 'y'] 0).map TabledResult.seen =
      (configTraverse ⟨fun _ _ => false, fun _ _ => .other⟩ sampleTree 9
        (configEstablishposition sampleTree) ['g', '/', 'b', '/', 'y'] 0).map Traversed.seen := by
  have hdistinct : ∀ n, ((sampleTree.deref (.table n)).subnodes.map Prod.fst).Nodup := by
    rintro (_ | _ | _ | _ | n)
    · decide
    · decide
    · decide
    · decide
    · exact List.nodup_nil
  have hsound : (arrive collidingIdentifier sampleTree (configEstablishposition sampleTree)).Sound
      collidingIdentifier sampleTree := ⟨rfl, hdistinct 0⟩
  exact tabledTraverse_agrees hdistinct hsound 9 ['g', '/', 'b', '/', 'y'] 0

/-! ## Duplicates -/

/-- The positions that `config_traverse` comes to from the root of a config.  Between two traversals a
position may change its working directory and its context. -/
inductive TabledReachable (identifier : List Char → Id) (mdal : Mdal) (config : MarfsConfig) :
    TabledPosition → Prop
  | start : TabledReachable identifier mdal config
      (arrive identifier config (configEstablishposition config))
  | traverse {current pos : TabledPosition} {fuel linkchk depth : Nat} {subpath rest : List Char}
    (reachable : TabledReachable identifier mdal config current)
    (traversed : tabledTraverse identifier mdal config fuel current subpath linkchk =
      some (.done pos rest depth)) : TabledReachable identifier mdal config pos
  | workdir {current : TabledPosition} (depth : Nat) (ctxt : Option Ctxt)
    (reachable : TabledReachable identifier mdal config current) :
    TabledReachable identifier mdal config
      { current with pos := { current.pos with depth := depth, ctxt := ctxt } }

def Behaves (identifier : List Char → Id) (mdal : Mdal) (config : MarfsConfig)
    (copied original : TabledPosition) : Prop :=
  ∀ fuel subpath linkchk,
    (tabledTraverse identifier mdal config fuel copied subpath linkchk).map TabledResult.seen =
        (tabledTraverse identifier mdal config fuel original subpath linkchk).map TabledResult.seen ∧
      ∀ result, tabledTraverse identifier mdal config fuel copied subpath linkchk = some result →
        result ≠ .outside

/-- Up to the root of the namespace, and a name there. -/
def ascent : Nat → List Char
  | 0 => ['x']
  | depth + 1 => '.' :: '.' :: '/' :: ascent depth

section Duplicates

variable {identifier : List Char → Id} {mdal : Mdal} {config : MarfsConfig}
  {current copied : TabledPosition}

theorem TabledReachable.built (h : TabledReachable identifier mdal config current) :
    current.Built identifier config := by
  induction h with
  | start => rfl
  | traverse _ traversed ih => exact tabledTraverse_inside ih traversed
  | workdir depth ctxt _ ih => exact ih

variable {table : HashTable Nat}

theorem lookupSubspace_empty (h : hashInit identifier (subspaceNodes []) true = some table)
    (name : List Char) : lookupSubspace identifier (some table) name = .outside := by
  obtain ⟨hvalid, hnodes⟩ := hashInit_valid h
  obtain rfl := Option.some.inj h
  rfl

theorem ascent_head (depth : Nat) : (ascent depth).head? ≠ some '/' := by
  cases depth with
  | zero => exact nofun
  | succ depth => exact nofun

theorem ascent_ne_nil (depth : Nat) : ascent depth ≠ [] := by
  cases depth with
  | zero => exact nofun
  | succ depth => exact nofun

theorem ascent_outside (mdal : Mdal) (config : MarfsConfig)
    (h : hashInit identifier (subspaceNodes []) true = some table) (pos : MarfsPosition) (depth : Nat)
    (relpath : List Char) (nonNS : Bool) (hnonNS : depth = 0 → nonNS = false) :
    ∃ fuel, LoopStep.iterate (tabledTraverseStep identifier mdal config 0) fuel
      ⟨⟨pos, relpath, ascent depth, depth, nonNS⟩, some table⟩ = some .outside := by
  induction depth generalizing nonNS with
  | zero =>
    refine ⟨1, ?_⟩
    have hup : firstElem '/' (ascent 0) ≠ ['.', '.'] := by decide
    have hhere : firstElem '/' (ascent 0) ≠ ['.'] := by decide
    have hshift : tabledShiftns identifier mdal config ⟨pos, some table⟩ (ascent 0) =
        .outside := by
      have hlen : (ascent 0).length = 1 := rfl
      rw [tabledShiftns, hlen, tabledShiftLoop, tabledShiftStep]
      dsimp only
      rw [if_neg (ascent_ne_nil 0), if_neg hup, if_neg hhere, lookupSubspace_empty h]
    obtain rfl := hnonNS rfl
    rw [LoopStep.iterate, tabledTraverseStep]
    dsimp only
    rw [if_neg (ascent_ne_nil 0), if_neg hup, if_neg hhere, if_pos ⟨rfl, rfl⟩, hshift]
  | succ depth ih =>
    obtain ⟨fuel, hfuel⟩ := ih false fun _ => rfl
    refine ⟨fuel + 1, ?_⟩
    have hfst : firstElem '/' (ascent (depth + 1)) = ['.', '.'] := rfl
    have hnext : nextElem '/' (ascent (depth + 1)) = ascent depth :=
      Marfs.Path.skipSep_of_head (ascent_head depth)
    rw [LoopStep.iterate, tabledTraverseStep]
    dsimp only
    rw [if_neg (ascent_ne_nil _), if_pos hfst, if_neg (Nat.succ_ne_zero depth), hnext]
    exact hfuel

/-- Without a context, a position is refused. -/
theorem tabledTraverse_no_ctxt (hctxt : current.pos.ctxt = none) (fuel : Nat) (subpath : List Char)
    (linkchk : Nat) : tabledTraverse identifier mdal config fuel current subpath linkchk = some .failed := by
  have hent : traverseEntry config current.pos subpath = .done .failed := if_pos hctxt
  unfold tabledTraverse
  rw [hent]
  rfl

/-- The duplicate of a ghost copy without subspaces reads behind its table, on the way up to the root of
the namespace and to a name there. -/
theorem duplicate_outside (mdal : Mdal)
    (hcopy : configDuplicateposition identifier config current = some copied)
    (hghost : (config.deref current.pos.ns).ghsource ≠ none)
    (hnil : (config.deref current.pos.ns).subnodes = []) (hctxt : current.pos.ctxt ≠ none) :
    ∃ fuel, tabledTraverse identifier mdal config fuel copied (ascent current.pos.depth) 0 =
      some .outside := by
  unfold configDuplicateposition at hcopy
  rw [if_neg hghost, hnil] at hcopy
  obtain ⟨table, hinit, heq⟩ := Option.bind_eq_some_iff.1 hcopy
  obtain rfl := Option.some.inj heq
  obtain ⟨fuel, hfuel⟩ := ascent_outside mdal config hinit current.pos current.pos.depth
    (ascent current.pos.depth) false fun _ => rfl
  refine ⟨fuel, ?_⟩
  have hent : traverseEntry config current.pos (ascent current.pos.depth) =
      .next ⟨current.pos, ascent current.pos.depth, ascent current.pos.depth, current.pos.depth,
        false⟩ := by
    rw [traverseEntry, if_neg hctxt, if_neg (ascent_head _)]
  unfold tabledTraverse
  dsimp only
  rw [hent]
  dsimp only [TabledPosition.follow]
  rw [TabledPosition.goto, if_pos rfl]
  exact hfuel

end Duplicates

/-- A duplicate of a position behaves like the original, unless it is of a ghost copy without subspaces
that has a context. -/
theorem duplicate_same_iff {identifier : List Char → Id} {mdal : Mdal} {config : MarfsConfig}
    {current copied : TabledPosition} (hreach : TabledReachable identifier mdal config current)
    (hcopied : configDuplicateposition identifier config current = some copied) :
    Behaves identifier mdal config copied current ↔
      ¬((config.deref current.pos.ns).ghsource ≠ none ∧ (config.deref current.pos.ns).subnodes = [] ∧
        current.pos.ctxt ≠ none) := by
  have hbuilt := hreach.built
  constructor
  · rintro hbehaves ⟨hghost, hnil, hctxt⟩
    obtain ⟨fuel, hfuel⟩ := duplicate_outside mdal hcopied hghost hnil hctxt
    exact (hbehaves fuel (ascent current.pos.depth) 0).2 .outside hfuel rfl
  · intro hcases fuel subpath linkchk
    by_cases hctxt : current.pos.ctxt = none
    · -- both are refused
      have hpos : copied.pos = current.pos := by
        unfold configDuplicateposition at hcopied
        split at hcopied
        · obtain rfl := Option.some.inj hcopied
          rfl
        · obtain ⟨table, -, heq⟩ := Option.bind_eq_some_iff.1 hcopied
          obtain rfl := Option.some.inj heq
          rfl
      have hcopied' : copied.pos.ctxt = none := by
        rw [hpos]
        exact hctxt
      rw [tabledTraverse_no_ctxt hcopied', tabledTraverse_no_ctxt hctxt]
      refine ⟨rfl, fun result hresult => ?_⟩
      obtain rfl := Option.some.inj hresult
      exact nofun
    · -- the duplicate has the table of the original
      have hsame : copied = current := by
        unfold configDuplicateposition at hcopied
        split at hcopied
        · exact (Option.some.inj hcopied).symm
        · next hghost =>
          have hne : (config.deref current.pos.ns).subnodes ≠ [] := fun hnil =>
            hcases ⟨hghost, hnil, hctxt⟩
          obtain ⟨table, hinit, heq⟩ := Option.bind_eq_some_iff.1 hcopied
          unfold TabledPosition.Built buildSubspaces at hbuilt
          rw [if_neg hne, hinit] at hbuilt
          rw [← Option.some.inj heq, ← hbuilt]
      rw [hsame]
      refine ⟨rfl, fun result hresult => ?_⟩
      have hinside := tabledTraverse_inside hbuilt hresult
      rintro rfl
      exact hinside

/-- The root of a config is shared. -/
theorem sampleTree_duplicate :
    Behaves collidingIdentifier ⟨fun _ _ => false, fun _ _ => .other⟩ sampleTree
      (arrive collidingIdentifier sampleTree (configEstablishposition sampleTree))
      (arrive collidingIdentifier sampleTree (configEstablishposition sampleTree)) :=
  (duplicate_same_iff .start rfl).2 fun h => h.1 rfl

/-- The ghost copy of a namespace without subspaces: a name in it is looked up behind the table of the
duplicate. -/
theorem sampleTree_duplicate_outside : ∃ current copied fuel,
    TabledReachable collidingIdentifier ⟨fun _ _ => false, fun _ _ => .other⟩ sampleTree current ∧
      configDuplicateposition collidingIdentifier sampleTree current = some copied ∧
      tabledTraverse collidingIdentifier ⟨fun _ _ => false, fun _ _ => .other⟩ sampleTree fuel copied
        ['x'] 0 = some .outside := by
  have hseen : (tabledTraverse collidingIdentifier ⟨fun _ _ => false, fun _ _ => .other⟩ sampleTree 9
      (arrive collidingIdentifier sampleTree (configEstablishposition sampleTree))
      ['g', '/', 'b', '/', 'y'] 0).map TabledResult.seen =
        some (some (some (⟨sampleBelow.ns, 0, some (.split ['/', 'g', '/', 'b'] ['/', 'a', '/', 'b'])⟩,
          ['y'], 1))) := by
    decide +kernel
  obtain ⟨result, hresult, hdone⟩ := Option.map_eq_some_iff.1 hseen
  cases result with
  | done current rest depth =>
    have hpos : current.pos = ⟨sampleBelow.ns, 0, some (.split ['/', 'g', '/', 'b'] ['/', 'a', '/', 'b'])⟩ :=
      congrArg Prod.fst (Option.some.inj (Option.some.inj hdone))
    have hghost : (sampleTree.deref current.pos.ns).ghsource ≠ none := by
      rw [hpos]
      decide
    have hnil : (sampleTree.deref current.pos.ns).subnodes = [] := by
      rw [hpos]
      decide
    have hcopied : (configDuplicateposition collidingIdentifier sampleTree current).isSome := by
      unfold configDuplicateposition
      rw [if_neg hghost, hnil]
      rfl
    obtain ⟨copied, hcopied⟩ := Option.isSome_iff_exists.1 hcopied
    obtain ⟨fuel, hfuel⟩ := duplicate_outside ⟨fun _ _ => false, fun _ _ => .other⟩ hcopied hghost hnil
      (by rw [hpos]; exact nofun)
    rw [hpos] at hfuel
    exact ⟨current, copied, fuel, .traverse .start hresult, hcopied, hfuel⟩
  | failed => cases hdone
  | crashed => cases hdone
  | outside => cases hdone

end Marfs.Config
