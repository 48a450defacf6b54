import Marfs.Config.Namespace

/-!
# Ghost copies

A copy of a ghost is determined by the ghost, its target and the names entered since: every move keeps
the values the ghost and the current target give.  The ghost ends where its target's parent would begin;
in a tree no namespace below the target has that parent, so the exit test holds at the target only.
-/

namespace Marfs.Config

open List

/-! ## ID strings -/

def idString (repo path : List Char) : List Char := repo ++ '|' :: path

theorem nsPath_idString {repo path : List Char} (hrepo : repo ≠ []) (hsep : '|' ∉ repo)
    (hpath : path.head? = some '/') : nsPath (idString repo path) = some (repo, path) := by
  cases repo with
  | nil => exact absurd rfl hrepo
  | cons c repo =>
    have hname : ∀ d ∈ repo, decide (d ≠ '|') = true := fun d hd =>
      decide_eq_true fun heq => hsep (heq ▸ mem_cons_of_mem c hd)
    have htake : (repo ++ '|' :: path).takeWhile (· ≠ '|') = repo := by
      rw [takeWhile_append_of_pos hname, takeWhile_cons_of_neg (by simp), List.append_nil]
    rw [nsPath, idString, cons_append, configNsinfo]
    simp only [htake, drop_left, hpath, if_true]

section PrevElem

variable {path : List Char} {i : Nat} {inrun : Bool} {prev : Option Nat}

theorem prevElem_of_notMem (h : '/' ∉ path) : prevElem path i inrun prev = prev := by
  induction path generalizing i inrun with
  | nil => rfl
  | cons c path ih =>
    have hc : c ≠ '/' := fun heq => h (heq ▸ mem_cons_self)
    rw [prevElem, if_neg hc]
    exact ih fun hmem => h (mem_cons_of_mem c hmem)

variable {c : Char}

theorem prevElem_append (path : List Char) (i : Nat) (inrun : Bool) (prev : Option Nat)
    (rest : List Char) (hc : c ≠ '/') :
    ∃ prev', prevElem (path ++ c :: rest) i inrun prev =
      prevElem rest (i + path.length + 1) false prev' := by
  induction path generalizing i inrun prev with
  | nil =>
    rw [nil_append, prevElem, if_neg hc]
    exact ⟨prev, rfl⟩
  | cons d path ih =>
    rw [cons_append, prevElem, length_cons,
      show i + (path.length + 1) + 1 = i + 1 + path.length + 1 by omega]
    split
    · exact ih (i + 1) true _
    · exact ih (i + 1) false prev

theorem prevElem_last {name : List Char} (hc : c ≠ '/') (hname : '/' ∉ name) :
    prevElem (path ++ c :: '/' :: name) 0 false none = some (path.length + 1) := by
  obtain ⟨prev', heq⟩ := prevElem_append path 0 false none ('/' :: name) hc
  rw [heq, prevElem, if_pos rfl, prevElem_of_notMem hname, Nat.zero_add]
  rfl

end PrevElem

/-! ## Trees -/

/-- What a config that was initialized holds: a subspace has its parent, a name of its own and an ID
string that ends with it; a ghost has no subspaces. -/
structure MarfsConfig.Tree (config : MarfsConfig) : Prop where
  source : ∀ n, (config.ns n).ghsource = none
  child : ∀ n node, node ∈ (config.ns n).subnodes → (config.ns node.2).pnamespace = some n
  ghost : ∀ n, (config.ns n).ghtarget ≠ none → (config.ns n).subnodes = []
  name : ∀ n node, node ∈ (config.ns n).subnodes → node.1 ≠ [] ∧ '/' ∉ node.1
  linked : ∀ n node, node ∈ (config.ns n).subnodes → ∃ repo path, repo ≠ [] ∧ '|' ∉ repo ∧
    (path = [] ∨ path.head? = some '/') ∧
    (config.ns node.2).idstr = idString repo (path ++ '/' :: node.1)
  /-- parents lead to the root -/
  acyclic : ∃ height : Nat → Nat, ∀ n parent, (config.ns n).pnamespace = some parent →
    height parent < height n

/-! ## Places -/

/-- Where a position is: at a standard namespace, or in the copy of a ghost with a target; then with
the subspaces entered since, the last one first. -/
inductive Place where
  | standard (ns : Nat)
  | ghost (g target : Nat) (trail : List (List Char × Nat))
  deriving DecidableEq, Repr

inductive Direction where
  | down (name : List Char) (subspace : Nat)
  | up
  deriving DecidableEq, Repr

def trailTarget (target : Nat) : List (List Char × Nat) → Nat
  | [] => target
  | node :: _ => node.2

/-- The names entered since the ghost. -/
def trailPath : List (List Char × Nat) → List Char
  | [] => []
  | node :: trail => trailPath trail ++ '/' :: node.1

def Place.move (config : MarfsConfig) : Place → Direction → Option Place
  | .standard _, .down _ subspace =>
    match (config.ns subspace).ghtarget with
    | none => some (.standard subspace)
    | some target => some (.ghost subspace target [])
  | .standard ns, .up => (config.ns ns).pnamespace.map .standard
  | .ghost g target trail, .down name subspace =>
    some (.ghost g target ((name, subspace) :: trail))
  | .ghost g _ [], .up => (config.ns g).pnamespace.map .standard
  | .ghost g target (_ :: trail), .up => some (.ghost g target trail)

def MarfsConfig.ghostCopy (config : MarfsConfig) (ghost target : Nat)
    (trail : List (List Char × Nat)) : MarfsNs :=
  let source := config.ns ghost
  let current := config.ns (trailTarget target trail)
  { ghsource := some ghost
    ghtarget := some (trailTarget target trail)
    pnamespace := current.pnamespace
    prepo := current.prepo
    idstr := source.idstr ++ trailPath trail
    fquota := lesserQuota source.fquota current.fquota
    dquota := lesserQuota source.dquota current.dquota
    iperms := source.iperms &&& current.iperms
    bperms := source.bperms &&& current.bperms
    subnodes := config.nonGhosts (trailTarget target trail) }

def MarfsConfig.Trail (config : MarfsConfig) (target : Nat) : List (List Char × Nat) → Prop
  | [] => True
  | node :: trail =>
    node ∈ (config.ns (trailTarget target trail)).subnodes ∧ (config.ns node.2).ghtarget = none ∧
      config.Trail target trail

inductive Stands (config : MarfsConfig) (pos : MarfsPosition) : Place → Prop
  | standard {n : Nat} (ns : pos.ns = .table n) (standard : (config.ns n).ghtarget = none) :
    Stands config pos (.standard n)
  | ghost {g target parent : Nat} {name : List Char} {trail : List (List Char × Nat)}
    (ns : pos.ns = .copy (config.ghostCopy g target trail))
    (ghtarget : (config.ns g).ghtarget = some target)
    (child : (name, g) ∈ (config.ns parent).subnodes) (walked : config.Trail target trail) :
    Stands config pos (.ghost g target trail)

inductive Move (config : MarfsConfig) (pos pos' : MarfsPosition) : Direction → Prop
  | down {name : List Char} {subspace : Nat} {updatectxt : Bool}
    (child : (name, subspace) ∈ (config.deref pos.ns).subnodes)
    (entered : configEnterns config pos (some subspace) name false updatectxt = .entered pos') :
    Move config pos pos' (.down name subspace)
  | up {updatectxt : Bool}
    (entered : configEnterns config pos (config.deref pos.ns).pnamespace ['.', '.'] true
      updatectxt = .entered pos') :
    Move config pos pos' .up

/-! ## What a move does -/

section Enter

variable {config : MarfsConfig} {pos pos' : MarfsPosition} {updatectxt : Bool}

theorem fortify_ns (h : configFortifyposition config pos = some pos') : pos'.ns = pos.ns := by
  unfold configFortifyposition at h
  split at h
  · rw [Option.some.inj h]
  · split at h
    · obtain ⟨_, -, h⟩ := Option.bind_eq_some_iff.1 h
      obtain ⟨_, -, h⟩ := Option.bind_eq_some_iff.1 h
      obtain ⟨_, -, h⟩ := Option.bind_eq_some_iff.1 h
      rw [← Option.some.inj h]
    · obtain ⟨_, -, h⟩ := Option.bind_eq_some_iff.1 h
      rw [← Option.some.inj h]

theorem refresh_ns (h : refresh config pos updatectxt = .entered pos') : pos'.ns = pos.ns := by
  unfold refresh at h
  dsimp only at h
  split at h
  · split at h
    · next hfortify =>
      have hns := fortify_ns hfortify
      rw [← Entered.entered.inj h]
      exact hns
    · cases h
  · rw [← Entered.entered.inj h]

variable {curns : MarfsNs} {nextns : Nat} {relpath : List Char}

theorem enterStandard_ns (h : enterStandard config pos curns nextns relpath updatectxt = .entered pos') :
    pos'.ns = .table nextns := by
  unfold enterStandard at h
  dsimp only at h
  split at h
  · split at h
    · rw [← Entered.entered.inj h]
    · cases h
  · exact refresh_ns h

theorem moveGhost_ns {ghsource : Nat} {idstr : List Char} {ascending : Bool}
    (hidstr : (if ascending then ascendIdstr curns.idstr else descendIdstr curns.idstr relpath) =
      some idstr)
    (h : moveGhost config pos curns ghsource nextns relpath ascending updatectxt = .entered pos') :
    pos'.ns = .copy
      { idstr := idstr
        fquota := lesserQuota (config.ns ghsource).fquota (config.ns nextns).fquota
        dquota := lesserQuota (config.ns ghsource).dquota (config.ns nextns).dquota
        iperms := (config.ns ghsource).iperms &&& (config.ns nextns).iperms
        bperms := (config.ns ghsource).bperms &&& (config.ns nextns).bperms
        prepo := (config.ns nextns).prepo
        pnamespace := (config.ns nextns).pnamespace
        subnodes := config.nonGhosts nextns
        ghtarget := some nextns
        ghsource := curns.ghsource } := by
  unfold moveGhost at h
  dsimp only at h
  split at h
  · cases h
  · rw [hidstr] at h
    exact refresh_ns h

end Enter

/-! ## ID strings of copies -/

section Idstr

variable {config : MarfsConfig} {repo path name : List Char}

theorem trailPath_head {trail : List (List Char × Nat)} (h : path.head? = some '/') :
    (path ++ trailPath trail).head? = some '/' := by
  rw [List.head?_append, h]
  rfl

theorem descendIdstr_idString (hrepo : repo ≠ []) (hsep : '|' ∉ repo)
    (hpath : path.head? = some '/') :
    descendIdstr (idString repo path) name = some (idString repo (path ++ '/' :: name)) := by
  have hlen : 0 < path.length := length_pos_of_ne_nil fun h => by rw [h] at hpath; cases hpath
  have hrepo' : 0 < repo.length := length_pos_of_ne_nil hrepo
  rw [descendIdstr, nsPath_idString hrepo hsep hpath]
  refine if_neg (Nat.not_lt.2 ?_)
  simp only [length_append, length_cons]
  omega

theorem ascendIdstr_idString {c : Char} (hrepo : repo ≠ []) (hsep : '|' ∉ repo)
    (hpath : (path ++ [c]).head? = some '/') (hc : c ≠ '/') (hname : '/' ∉ name) :
    ascendIdstr (idString repo (path ++ [c] ++ '/' :: name)) =
      some (idString repo (path ++ [c])) := by
  have hhead : (path ++ [c] ++ '/' :: name).head? = some '/' := by
    rw [List.head?_append, hpath]
    rfl
  have hprev : prevElem (path ++ [c] ++ '/' :: name) 0 false none = some (path.length + 1) := by
    rw [append_assoc]
    exact prevElem_last hc hname
  have htake : (path ++ [c] ++ '/' :: name).take (path.length + 1) = path ++ [c] :=
    take_left' (by simp)
  have hrepo' : 0 < repo.length := length_pos_of_ne_nil hrepo
  rw [ascendIdstr, nsPath_idString hrepo hsep hhead]
  simp only [Option.bind_eq_bind, Option.bind_some, hprev, htake, Nat.succ_ne_zero, if_false]
  refine if_neg (Nat.not_lt.2 ?_)
  simp only [length_append, length_cons]
  omega

theorem path_getLast (path : List Char) {name : List Char} (hne : name ≠ []) (hname : '/' ∉ name) :
    ∃ front c, path ++ '/' :: name = front ++ [c] ∧ c ≠ '/' := by
  refine ⟨path ++ '/' :: name.dropLast, name.getLast hne, ?_, fun heq => ?_⟩
  · rw [append_assoc, cons_append, dropLast_append_getLast hne]
  · exact hname (heq ▸ getLast_mem hne)

end Idstr

variable {config : MarfsConfig} {g parent target : Nat} {name : List Char}
  {trail : List (List Char × Nat)} {pos : MarfsPosition}

theorem MarfsConfig.Tree.copy_idstr (htree : config.Tree)
    (hchild : (name, g) ∈ (config.ns parent).subnodes) (htrl : config.Trail target trail) :
    ∃ repo path, repo ≠ [] ∧ '|' ∉ repo ∧ (path ++ trailPath trail).head? = some '/' ∧
      path.head? = some '/' ∧ (config.ns g).idstr = idString repo path ∧
      (config.ghostCopy g target trail).idstr = idString repo (path ++ trailPath trail) ∧
      ∃ front c, path ++ trailPath trail = front ++ [c] ∧ c ≠ '/' := by
  obtain ⟨repo, path, hrepo, hsep, hpath, hidstr⟩ := htree.linked parent _ hchild
  obtain ⟨hne, hslash⟩ := htree.name parent _ hchild
  have hhead : (path ++ '/' :: name).head? = some '/' := by
    rw [List.head?_append]
    rcases hpath with rfl | hpath
    · rfl
    · rw [hpath]
      rfl
  refine ⟨repo, path ++ '/' :: name, hrepo, hsep, trailPath_head hhead, hhead, hidstr, ?_, ?_⟩
  · dsimp only [ghostCopy]
    rw [hidstr, idString, idString, append_assoc, cons_append]
  · cases trail with
    | nil =>
      rw [trailPath, List.append_nil]
      exact path_getLast path hne hslash
    | cons node trail =>
      obtain ⟨hmem, -, -⟩ := htrl
      obtain ⟨hne', hslash'⟩ := htree.name _ node hmem
      rw [trailPath, ← append_assoc]
      exact path_getLast _ hne' hslash'

/-! ## Moves -/

section Moves

variable {config : MarfsConfig} {pos pos' : MarfsPosition} {place : Place}

theorem MarfsConfig.Tree.height_trail {config : MarfsConfig} {height : Nat → Nat} (htree : config.Tree)
    (hheight : ∀ n parent, (config.ns n).pnamespace = some parent → height parent < height n) {target : Nat}
    {trail : List (List Char × Nat)} (htrl : config.Trail target trail) :
    height target ≤ height (trailTarget target trail) := by
  induction trail with
  | nil => exact le_rfl
  | cons node trail ih =>
    obtain ⟨hmem, -, hrest⟩ := htrl
    exact (ih hrest).trans (hheight _ _ (htree.child _ node hmem)).le

variable {direction : Direction}

theorem Stands.move_standard (htree : config.Tree) {n : Nat} (hns : pos.ns = .table n)
    (hmove : Move config pos pos' direction) :
    ∃ place', (Place.standard n).move config direction = some place' ∧ Stands config pos' place' := by
  have hderef : config.deref pos.ns = config.ns n := by
    rw [hns]
    rfl
  cases hmove with
  | @down name subspace updatectxt child entered =>
    rw [hderef] at child
    unfold configEnterns at entered
    simp only [hderef, htree.source n] at entered
    cases htgt : (config.ns subspace).ghtarget with
    | none =>
      rw [htgt] at entered
      refine ⟨.standard subspace, ?_, .standard (enterStandard_ns entered) htgt⟩
      rw [Place.move, htgt]
    | some target =>
      rw [htgt] at entered
      refine ⟨.ghost subspace target [], ?_, .ghost ?_ htgt child trivial⟩
      · rw [Place.move, htgt]
      · have hcopy := refresh_ns entered
        rw [hcopy, MarfsConfig.ghostCopy]
        simp only [trailTarget, trailPath, List.append_nil]
  | @up updatectxt entered =>
    unfold configEnterns at entered
    simp only [hderef, htree.source n] at entered
    cases hpar : (config.ns n).pnamespace with
    | none =>
      rw [hpar] at entered
      cases entered
    | some parent =>
      rw [hpar] at entered
      refine ⟨.standard parent, ?_, ?_⟩
      · rw [Place.move, hpar]
        rfl
      · dsimp only at entered
        split at entered
        · next hnone => exact .standard (enterStandard_ns entered) hnone
        · cases entered

theorem Stands.move_ghost (htree : config.Tree) {g target parent : Nat} {name : List Char}
    {trail : List (List Char × Nat)} (hns : pos.ns = .copy (config.ghostCopy g target trail))
    (htgt : (config.ns g).ghtarget = some target) (hchild : (name, g) ∈ (config.ns parent).subnodes)
    (htrl : config.Trail target trail) (hmove : Move config pos pos' direction) :
    ∃ place', (Place.ghost g target trail).move config direction = some place' ∧
      Stands config pos' place' := by
  have hderef : config.deref pos.ns = config.ghostCopy g target trail := by
    rw [hns]
    rfl
  have hsource : (config.ghostCopy g target trail).ghsource = some g := rfl
  obtain ⟨repo, path, hrepo, hsep, hhead, -, hgidstr, hidstr, -, -, -⟩ :=
    htree.copy_idstr hchild htrl
  cases hmove with
  | @down entry subspace updatectxt child entered =>
    rw [hderef] at child
    obtain ⟨hmem, hstandard⟩ := List.mem_filter.1 child
    have hnone : (config.ns subspace).ghtarget = none := Option.isNone_iff_eq_none.1 hstandard
    have hnot : ¬((false : Bool) = true ∧ some subspace = (config.ns g).ghtarget.bind
        fun ghtarget => (config.ns ghtarget).pnamespace) := fun h => by cases h.1
    unfold configEnterns at entered
    simp only [hderef, hsource, if_neg hnot] at entered
    have hdesc : (if (false : Bool) then ascendIdstr (config.ghostCopy g target trail).idstr
        else descendIdstr (config.ghostCopy g target trail).idstr entry) =
        some (idString repo (path ++ trailPath trail ++ '/' :: entry)) := by
      rw [hidstr]
      exact descendIdstr_idString hrepo hsep hhead
    refine ⟨.ghost g target ((entry, subspace) :: trail), rfl,
      .ghost ?_ htgt hchild ⟨hmem, hnone, htrl⟩⟩
    rw [moveGhost_ns hdesc entered]
    simp only [MarfsConfig.ghostCopy, trailTarget, trailPath, hgidstr, idString, append_assoc,
      cons_append]
  | @up updatectxt entered =>
    unfold configEnterns at entered
    simp only [hderef, hsource, htgt, Option.bind_some] at entered
    cases trail with
    | nil =>
      have hpar := htree.child parent _ hchild
      have hexit : (config.ghostCopy g target []).pnamespace = (config.ns target).pnamespace := rfl
      rw [if_pos ⟨trivial, hexit⟩, hpar] at entered
      have hstandard : (config.ns parent).ghtarget = none := by
        by_contra hghost
        rw [htree.ghost parent hghost] at hchild
        cases hchild
      refine ⟨.standard parent, ?_, .standard (refresh_ns entered) hstandard⟩
      rw [Place.move, hpar]
      rfl
    | cons node trail =>
      obtain ⟨hmem, hstandard, hrest⟩ := htrl
      obtain ⟨repo, path, hrepo, hsep, hhead, -, hgidstr, hidstr, front, c, hfront, hc⟩ :=
        htree.copy_idstr hchild hrest
      have hup : (config.ghostCopy g target (node :: trail)).pnamespace =
          some (trailTarget target trail) := htree.child _ node hmem
      obtain ⟨height, hheight⟩ := htree.acyclic
      have hnot : ¬(True ∧ (config.ghostCopy g target (node :: trail)).pnamespace =
          (config.ns target).pnamespace) := by
        rintro ⟨-, hsame⟩
        rw [hup] at hsame
        have hlt := hheight target _ hsame.symm
        have hle := htree.height_trail hheight hrest
        omega
      have hcopy : (config.ghostCopy g target (node :: trail)).idstr =
          idString repo (front ++ [c] ++ '/' :: node.1) := by
        dsimp only [MarfsConfig.ghostCopy, trailPath]
        rw [hgidstr, ← hfront, idString, idString]
        simp only [append_assoc, cons_append]
      have hascend : (if (true : Bool) then
          ascendIdstr (config.ghostCopy g target (node :: trail)).idstr
          else descendIdstr (config.ghostCopy g target (node :: trail)).idstr ['.', '.']) =
          some (idString repo (path ++ trailPath trail)) := by
        rw [hcopy, hfront]
        exact ascendIdstr_idString hrepo hsep (hfront ▸ hhead) hc (htree.name _ node hmem).2
      rw [if_neg hnot, hup] at entered
      refine ⟨.ghost g target trail, rfl, .ghost ?_ htgt hchild hrest⟩
      rw [moveGhost_ns hascend entered]
      simp only [MarfsConfig.ghostCopy, hgidstr, idString, append_assoc, cons_append]

theorem Stands.move (htree : config.Tree) (h : Stands config pos place)
    (hmove : Move config pos pos' direction) :
    ∃ place', place.move config direction = some place' ∧ Stands config pos' place' := by
  cases h with
  | standard ns => exact move_standard htree ns hmove
  | ghost ns ghtarget child walked => exact move_ghost htree ns ghtarget child walked hmove

theorem Stands.ns_eq (h : Stands config pos place) (h' : Stands config pos' place) : pos.ns = pos'.ns := by
  cases h with
  | standard ns =>
    cases h' with
    | standard ns' => rw [ns, ns']
  | ghost ns =>
    cases h' with
    | ghost ns' => rw [ns, ns']

theorem Stands.move_up (htree : config.Tree) (h : Stands config pos place) {place₁ place₂ : Place}
    {name : List Char} {subspace : Nat} (hmove : Move config pos pos' (.down name subspace))
    (hdown : place.move config (.down name subspace) = some place₁)
    (hup : place₁.move config .up = some place₂) : place₂ = place := by
  cases h with
  | @standard n ns standard =>
    have hpar : (config.ns subspace).pnamespace = some n := by
      cases hmove with
      | down child entered =>
        rw [ns] at child
        exact htree.child n _ child
    cases htgt : (config.ns subspace).ghtarget with
    | none =>
      rw [Place.move, htgt] at hdown
      obtain rfl := Option.some.inj hdown
      rw [Place.move, hpar] at hup
      exact (Option.some.inj hup).symm
    | some target =>
      rw [Place.move, htgt] at hdown
      obtain rfl := Option.some.inj hdown
      rw [Place.move, hpar] at hup
      exact (Option.some.inj hup).symm
  | ghost ns ghtarget child walked =>
    obtain rfl := Option.some.inj hdown
    exact (Option.some.inj hup).symm

end Moves

/-! ## The result -/

/-- The smaller one of two quotas, zero being unlimited. -/
def leastQuota (quota tgtquota : Nat) : Nat :=
  if quota = 0 then tgtquota else if tgtquota = 0 then quota else min quota tgtquota

theorem lesserQuota_eq (quota tgtquota : Nat) : lesserQuota quota tgtquota = leastQuota quota tgtquota := by
  unfold lesserQuota leastQuota
  split_ifs <;> omega

structure GhostValues (config : MarfsConfig) (g current : Nat) (entered : List Char)
    (ns : MarfsNs) : Prop where
  ghsource : ns.ghsource = some g
  ghtarget : ns.ghtarget = some current
  iperms : ns.iperms = (config.ns g).iperms &&& (config.ns current).iperms
  bperms : ns.bperms = (config.ns g).bperms &&& (config.ns current).bperms
  fquota : ns.fquota = leastQuota (config.ns g).fquota (config.ns current).fquota
  dquota : ns.dquota = leastQuota (config.ns g).dquota (config.ns current).dquota
  subnodes : ns.subnodes = (config.ns current).subnodes.filter fun node =>
    (config.ns node.2).ghtarget = none
  pnamespace : ns.pnamespace = (config.ns current).pnamespace
  prepo : ns.prepo = (config.ns current).prepo
  path : ∃ repo path, nsPath (config.ns g).idstr = some (repo, path) ∧
    nsPath ns.idstr = some (repo, path ++ entered)

def Consistent (config : MarfsConfig) (pos : MarfsPosition) : Place → Prop
  | .standard n => pos.ns = .table n ∧ (config.ns n).ghtarget = none
  | .ghost g target trail => (config.ns g).ghtarget = some target ∧
    (∃ ns, pos.ns = .copy ns ∧
      GhostValues config g (trailTarget target trail) (trailPath trail) ns) ∧
    -- no ghost is entered from here
    (∀ name subspace pos', Move config pos pos' (.down name subspace) →
      (config.ns subspace).ghtarget = none) ∧
    -- from its own target the ghost is left for its parent
    (trail = [] → ∀ pos', Move config pos pos' .up →
      ∃ parent, (config.ns g).pnamespace = some parent ∧ pos'.ns = .table parent)

theorem MarfsConfig.Tree.ghostValues (htree : config.Tree) (hchild : (name, g) ∈ (config.ns parent).subnodes)
    (htrl : config.Trail target trail) :
    GhostValues config g (trailTarget target trail) (trailPath trail)
      (config.ghostCopy g target trail) := by
  obtain ⟨repo, path, hrepo, hsep, hhead, hghead, hgidstr, hidstr, -⟩ := htree.copy_idstr hchild htrl
  refine ⟨rfl, rfl, rfl, rfl, lesserQuota_eq _ _, lesserQuota_eq _ _, ?_, rfl, rfl, repo, path, ?_, ?_⟩
  · dsimp only [MarfsConfig.ghostCopy, MarfsConfig.nonGhosts]
    refine filter_congr fun node _ => ?_
    exact Bool.eq_iff_iff.2 (by rw [Option.isNone_iff_eq_none, decide_eq_true_iff])
  · rw [hgidstr, nsPath_idString hrepo hsep hghead]
  · rw [hidstr, nsPath_idString hrepo hsep hhead]

theorem Stands.consistent (htree : config.Tree) {place : Place} (h : Stands config pos place) :
    Consistent config pos place := by
  cases h with
  | standard ns standard => exact ⟨ns, standard⟩
  | @ghost g target parent name trail ns ghtarget child walked =>
    refine ⟨ghtarget, ⟨_, ns, htree.ghostValues child walked⟩, fun entry subspace pos' hmove => ?_,
      fun htrl pos' hmove => ?_⟩
    · cases hmove with
      | down entry entered =>
        rw [ns] at entry
        exact Option.isNone_iff_eq_none.1 (List.mem_filter.1 entry).2
    · subst htrl
      obtain ⟨place', hplc, hstand⟩ := move_ghost htree ns ghtarget child walked hmove
      have hpar := htree.child parent _ child
      rw [Place.move, hpar] at hplc
      obtain rfl := Option.some.inj hplc
      cases hstand with
      | standard ns' => exact ⟨parent, hpar, ns'⟩

inductive Moves (config : MarfsConfig) (start : MarfsPosition) : List Direction → MarfsPosition → Prop
  | start : Moves config start [] start
  | move {directions : List Direction} {direction : Direction} {pos pos' : MarfsPosition}
    (run : Moves config start directions pos) (move : Move config pos pos' direction) :
    Moves config start (directions ++ [direction]) pos'

/-- Ghost copies stay consistent in every run that starts at a standard namespace, and to enter a
subspace and to ascend again restores the namespace of a position. -/
theorem moves_consistent (htree : config.Tree) {start : MarfsPosition} {n : Nat}
    (hstart : start.ns = .table n) (hstandard : (config.ns n).ghtarget = none) {directions : List Direction}
    (hrun : Moves config start directions pos) :
    (∃ place, directions.foldlM (Place.move config) (.standard n) = some place ∧
      Consistent config pos place) ∧
    ∀ name subspace pos₁ pos₂, Move config pos pos₁ (.down name subspace) →
      Move config pos₁ pos₂ .up → pos₂.ns = pos.ns := by
  have hstands : ∃ place, directions.foldlM (Place.move config) (.standard n) = some place ∧
      Stands config pos place := by
    induction hrun with
    | start => exact ⟨.standard n, rfl, .standard hstart hstandard⟩
    | move _ hmove ih =>
      obtain ⟨place, hplace, hstands⟩ := ih
      obtain ⟨place', hmoved, hstands'⟩ := hstands.move htree hmove
      refine ⟨place', ?_, hstands'⟩
      rw [foldlM_append, hplace]
      simp [hmoved]
  obtain ⟨place, hplace, hstands⟩ := hstands
  refine ⟨⟨place, hplace, hstands.consistent htree⟩, fun name subspace pos₁ pos₂ hdown hup => ?_⟩
  obtain ⟨place₁, hmove₁, hstands₁⟩ := hstands.move htree hdown
  obtain ⟨place₂, hmove₂, hstands₂⟩ := hstands₁.move htree hup
  obtain rfl := hstands.move_up htree hdown hmove₁ hmove₂
  exact hstands₂.ns_eq hstands

/-! ## A sample tree -/

def sampleTree : MarfsConfig where
  mountpoint := "/m".toList
  rootns := 0
  ns
    | 0 => ⟨"r|/".toList, 0, 0, 3, 3, 0, none, [("a".toList, 1), ("g".toList, 2)], none, none⟩
    | 1 => ⟨"r|/a".toList, 8, 0, 2, 3, 0, some 0, [("b".toList, 3)], none, none⟩
    | 2 => ⟨"r|/g".toList, 5, 7, 3, 1, 0, some 0, [], some 1, none⟩
    | 3 => ⟨"r|/a/b".toList, 4, 0, 3, 3, 0, some 1, [], none, none⟩
    | _ => ⟨"r|/".toList, 0, 0, 0, 0, 0, none, [], none, none⟩

theorem sampleTree_tree : sampleTree.Tree where
  source
    | 0 | 1 | 2 | 3 | _ + 4 => rfl
  child := by
    rintro (_ | _ | _ | _ | n) node hnode <;> simp [sampleTree] at hnode
    · rcases hnode with rfl | rfl <;> rfl
    · subst hnode
      rfl
  ghost := by
    rintro (_ | _ | _ | _ | n) hghost
    · exact absurd rfl hghost
    · exact absurd rfl hghost
    · rfl
    · rfl
    · rfl
  name := by
    rintro (_ | _ | _ | _ | n) node hnode <;> simp [sampleTree] at hnode
    · rcases hnode with rfl | rfl <;> decide
    · subst hnode
      decide
  linked := by
    rintro (_ | _ | _ | _ | n) node hnode <;> simp [sampleTree] at hnode
    · refine ⟨['r'], [], ?_, ?_, Or.inl rfl, ?_⟩ <;> rcases hnode with rfl | rfl <;> decide
    · subst hnode
      exact ⟨['r'], ['/', 'a'], by decide, by decide, Or.inr rfl, rfl⟩
  acyclic := by
    refine ⟨id, ?_⟩
    rintro (_ | _ | _ | _ | n) parent hpar <;> simp [sampleTree] at hpar <;> simp [← hpar]

def sampleRoot : MarfsPosition := ⟨.table 0, 0, none⟩

def sampleGhost : MarfsPosition := ⟨.copy (sampleTree.ghostCopy 2 1 []), 0, none⟩

def sampleBelow : MarfsPosition :=
  ⟨.copy (sampleTree.ghostCopy 2 1 [("b".toList, 3)]), 0, none⟩

theorem sampleBelow_consistent :
    (∃ place, [.down "g".toList 2, .down "b".toList 3].foldlM (Place.move sampleTree)
        (.standard 0) = some place ∧ Consistent sampleTree sampleBelow place) ∧
      ∀ name subspace pos₁ pos₂, Move sampleTree sampleBelow pos₁ (.down name subspace) →
        Move sampleTree pos₁ pos₂ .up → pos₂.ns = sampleBelow.ns := by
  have hghost : Move sampleTree sampleRoot sampleGhost (.down "g".toList 2) :=
    .down (mem_cons_of_mem _ mem_cons_self)
      (rfl : configEnterns sampleTree sampleRoot (some 2) ['g'] false false = .entered sampleGhost)
  have hbelow : Move sampleTree sampleGhost sampleBelow (.down "b".toList 3) :=
    .down mem_cons_self
      (rfl : configEnterns sampleTree sampleGhost (some 3) ['b'] false false = .entered sampleBelow)
  exact moves_consistent sampleTree_tree rfl rfl (.move (.move .start hghost) hbelow)

end Marfs.Config
