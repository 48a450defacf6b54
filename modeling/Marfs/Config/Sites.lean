import Mathlib.Data.List.Nodup
import Marfs.Config.TraverseSpec

/-!
# Where traversal leads

In a config that was initialized the ID string of a namespace spells the names that lead to it from the
root, and that of a ghost copy those that lead to the ghost and on from its target.  What a traversal
leads to is such a place, and the ID string tells which (`Sited.unique`).
-/

namespace Marfs.Config

open Marfs.Path List

/-! ## Names from the root -/

inductive MarfsConfig.Leads (config : MarfsConfig) : List (List Char) → Nat → Prop
  | root : config.Leads [] config.rootns
  | sub {names : List (List Char)} {n : Nat} {node : List Char × Nat} (h : config.Leads names n)
    (mem : node ∈ (config.ns n).subnodes) : config.Leads (names ++ [node.1]) node.2

def pathText (names : List (List Char)) : List Char := names.flatMap fun name => '/' :: name

/-- A tree whose names are file names, no two of them the same among siblings, as it is initialized: an ID
string holds the path, and the target of a ghost was looked up from the root. -/
structure MarfsConfig.Named (config : MarfsConfig) : Prop extends config.Tree where
  rootparent : (config.ns config.rootns).pnamespace = none
  rootghost : (config.ns config.rootns).ghtarget = none
  rootid : ∃ repo, repo ≠ [] ∧ '|' ∉ repo ∧
    (config.ns config.rootns).idstr = idString repo ['/', '.']
  filename : ∀ n node, node ∈ (config.ns n).subnodes → node.1 ≠ ['.']
  distinct : ∀ n, ((config.ns n).subnodes.map Prod.fst).Nodup
  id : ∀ names n, config.Leads names n → names ≠ [] → ∃ repo, repo ≠ [] ∧ '|' ∉ repo ∧
    (config.ns n).idstr = idString repo (pathText names)
  target : ∀ g t, (config.ns g).ghtarget = some t → ∃ names, config.Leads names t

/-- A namespace reference of a position: a standard namespace, or a ghost copy, with the names that lead
to it. -/
inductive MarfsConfig.Sited (config : MarfsConfig) : NsRef → List (List Char) → Prop
  | standard {n : Nat} {names : List (List Char)} (leads : config.Leads names n)
    (ghtarget : (config.ns n).ghtarget = none) : config.Sited (.table n) names
  | ghost {g target : Nat} {names : List (List Char)} {trail : List (List Char × Nat)}
    (leads : config.Leads names g) (ghtarget : (config.ns g).ghtarget = some target)
    (walked : config.Trail target trail) :
    config.Sited (.copy (config.ghostCopy g target trail)) (names ++ (trail.map Prod.fst).reverse)

section Names

variable {config : MarfsConfig} {names names' : List (List Char)}

theorem pathText_inj (h : ∀ name ∈ names, '/' ∉ name) (h' : ∀ name ∈ names', '/' ∉ name)
    (heq : pathText names = pathText names') : names = names' := by
  induction names generalizing names' with
  | nil =>
    cases names' with
    | nil => rfl
    | cons name' names' => cases heq
  | cons name names ih =>
    cases names' with
    | nil => cases heq
    | cons name' names' =>
      have htail (names : List (List Char)) :
          pathText names = [] ∨ (pathText names).head? = some '/' := by
        cases names with
        | nil => exact .inl rfl
        | cons name names => exact .inr rfl
      have hspl {name : List Char} (hname : '/' ∉ name) (names : List (List Char)) :
          (name ++ pathText names).takeWhile (· ≠ '/') = name := by
        have hall : ∀ c ∈ name, decide (c ≠ '/') = true := fun c hc =>
          decide_eq_true fun heq => hname (heq ▸ hc)
        rw [takeWhile_append_of_pos hall]
        rcases htail names with hnil | hhead
        · rw [hnil, takeWhile_nil, List.append_nil]
        · obtain ⟨rest, hrest⟩ := List.head?_eq_some_iff.1 hhead
          rw [hrest, takeWhile_cons_of_neg (by simp), List.append_nil]
      have htext : name ++ pathText names = name' ++ pathText names' := (List.cons.inj heq).2
      have hname : name = name' := by
        rw [← hspl (h name mem_cons_self) names, htext,
          hspl (h' name' mem_cons_self) names']
      subst hname
      rw [ih (fun n hn => h n (mem_cons_of_mem _ hn))
        (fun n hn => h' n (mem_cons_of_mem _ hn)) (append_cancel_left htext)]

theorem MarfsConfig.Leads.slash (htree : config.Tree) {n : Nat} (h : config.Leads names n) :
    ∀ name ∈ names, '/' ∉ name := by
  induction h with
  | root => exact fun name hname => nomatch hname
  | @sub names n node h mem ih =>
    intro name hname
    rcases List.mem_append.1 hname with hname | hname
    · exact ih name hname
    · rw [List.mem_singleton.1 hname]
      exact (htree.name n node mem).2

theorem MarfsConfig.Trail.slash (htree : config.Tree) {target : Nat}
    {trail : List (List Char × Nat)} (h : config.Trail target trail) :
    ∀ name ∈ (trail.map Prod.fst).reverse, '/' ∉ name := by
  induction trail with
  | nil => exact fun name hname => nomatch hname
  | cons node trail ih =>
    intro name hname
    rw [mem_reverse, map_cons, mem_cons] at hname
    rcases hname with rfl | hname
    · exact (htree.name _ node h.1).2
    · exact ih h.2.2 name (List.mem_reverse.2 hname)

theorem MarfsConfig.Named.sibling (hnm : config.Named) {n : Nat} {node node' : List Char × Nat}
    (h : node ∈ (config.ns n).subnodes) (h' : node' ∈ (config.ns n).subnodes) (hname : node.1 = node'.1) :
    node = node' :=
  inj_on_of_nodup_map (hnm.distinct n) h h' hname

theorem MarfsConfig.Leads.unique (hnm : config.Named) {n m : Nat} (h : config.Leads names n)
    (h' : config.Leads names' m) (heq : names = names') : n = m := by
  induction h generalizing names' m with
  | root =>
    cases h' with
    | root => rfl
    | sub => simp at heq
  | @sub names n node h mem ih =>
    cases h' with
    | root => simp at heq
    | @sub names' m node' h' mem' =>
      obtain ⟨hnames, hname⟩ := append_inj' heq rfl
      obtain rfl := ih h' hnames
      rw [hnm.sibling mem mem' (List.singleton_inj.1 hname)]

/-- On the way to a namespace there are others. -/
theorem MarfsConfig.Leads.front {all rest : List (List Char)} {n : Nat} (h : config.Leads all n)
    (heq : all = names ++ rest) :
    rest = [] ∧ config.Leads names n ∨ ∃ k, config.Leads names k ∧ (config.ns k).subnodes ≠ [] := by
  induction h generalizing rest with
  | root =>
    obtain ⟨rfl, rfl⟩ := List.append_eq_nil_iff.1 heq.symm
    exact .inl ⟨rfl, .root⟩
  | @sub before k node h mem ih =>
    rcases eq_nil_or_concat rest with rfl | ⟨rest, name, rfl⟩
    · rw [List.append_nil] at heq
      exact .inl ⟨rfl, heq ▸ .sub h mem⟩
    · rw [concat_eq_append, ← append_assoc] at heq
      rcases ih (append_inj' heq rfl).1 with ⟨-, hk⟩ | hfront
      · exact .inr ⟨k, hk, ne_nil_of_mem mem⟩
      · exact .inr hfront

theorem MarfsConfig.Trail.leads {target : Nat} {trail : List (List Char × Nat)}
    (h : config.Trail target trail) (htgt : config.Leads names target) :
    config.Leads (names ++ (trail.map Prod.fst).reverse) (trailTarget target trail) := by
  induction trail with
  | nil =>
    rw [map_nil, reverse_nil, List.append_nil]
    exact htgt
  | cons node trail ih =>
    rw [map_cons, reverse_cons, ← append_assoc]
    exact .sub (ih h.2.2) h.1

theorem MarfsConfig.Trail.unique (hnm : config.Named) {target : Nat} {trail trail' : List (List Char × Nat)}
    (h : config.Trail target trail) (h' : config.Trail target trail')
    (heq : trail.map Prod.fst = trail'.map Prod.fst) : trail = trail' := by
  induction trail generalizing trail' with
  | nil => exact (List.map_eq_nil_iff.1 heq.symm).symm
  | cons node trail ih =>
    cases trail' with
    | nil => cases heq
    | cons node' trail' =>
      obtain ⟨hname, hrest⟩ := List.cons.inj heq
      obtain rfl := ih h.2.2 h'.2.2 hrest
      rw [hnm.sibling h.1 h'.1 hname]

theorem MarfsConfig.Named.ghost_child (hnm : config.Named) {g target : Nat} (h : config.Leads names g)
    (hghost : (config.ns g).ghtarget = some target) :
    names ≠ [] ∧ ∃ parent name, (name, g) ∈ (config.ns parent).subnodes := by
  cases h with
  | root =>
    rw [hnm.rootghost] at hghost
    cases hghost
  | @sub names n node h mem => exact ⟨by simp, n, node.1, mem⟩

theorem trailPath_eq (trail : List (List Char × Nat)) :
    trailPath trail = pathText (trail.map Prod.fst).reverse := by
  induction trail with
  | nil => rfl
  | cons node trail ih =>
    rw [trailPath, ih, map_cons, reverse_cons, pathText, pathText, flatMap_append,
      flatMap_singleton]

theorem pathText_append (names names' : List (List Char)) :
    pathText (names ++ names') = pathText names ++ pathText names' := flatMap_append

def Spells (idstr : List Char) (names : List (List Char)) : Prop :=
  ∃ repo, repo ≠ [] ∧ '|' ∉ repo ∧
    idstr = idString repo (if names = [] then ['/', '.'] else pathText names)

theorem MarfsConfig.Leads.spells (hnm : config.Named) {n : Nat} (h : config.Leads names n) :
    Spells (config.ns n).idstr names := by
  by_cases hnil : names = []
  · subst hnil
    obtain rfl : n = config.rootns := h.unique hnm .root rfl
    exact hnm.rootid
  · obtain ⟨repo, hrepo, hsep, hid⟩ := hnm.id names n h hnil
    exact ⟨repo, hrepo, hsep, by rw [if_neg hnil, hid]⟩

theorem MarfsConfig.Sited.spells (hnm : config.Named) {ref : NsRef} (h : config.Sited ref names) :
    Spells (config.deref ref).idstr names := by
  cases h with
  | standard leads ghtarget => exact leads.spells hnm
  | @ghost g target names trail leads ghtarget walked =>
    obtain ⟨hne, -⟩ := hnm.ghost_child leads ghtarget
    obtain ⟨repo, hrepo, hsep, hid⟩ := hnm.id names g leads hne
    refine ⟨repo, hrepo, hsep, ?_⟩
    rw [if_neg (by simp [hne]), pathText_append, ← trailPath_eq]
    show (config.ns g).idstr ++ trailPath trail = _
    rw [hid, idString, idString, append_assoc, cons_append]

theorem MarfsConfig.Sited.slash (htree : config.Tree) {ref : NsRef} (h : config.Sited ref names) :
    ∀ name ∈ names, '/' ∉ name := by
  cases h with
  | standard leads => exact leads.slash htree
  | ghost leads ghtarget walked =>
    intro name hname
    rcases List.mem_append.1 hname with hname | hname
    · exact leads.slash htree name hname
    · exact walked.slash htree name hname

theorem MarfsConfig.Leads.filename (hnm : config.Named) {n : Nat} (h : config.Leads names n) :
    names ≠ [['.']] := by
  cases h with
  | root => nofun
  | @sub names n node h mem =>
    intro heq
    have hlast := congrArg getLast? heq
    rw [List.getLast?_concat] at hlast
    exact hnm.filename n node mem (Option.some.inj hlast)

theorem idString_path {repo repo' path path' : List Char} (hrepo : repo ≠ []) (hsep : '|' ∉ repo)
    (hrepo' : repo' ≠ []) (hsep' : '|' ∉ repo') (hpath : path.head? = some '/')
    (hpath' : path'.head? = some '/') (h : idString repo path = idString repo' path') :
    path = path' := by
  have hinfo := nsPath_idString hrepo hsep hpath
  rw [h, nsPath_idString hrepo' hsep' hpath'] at hinfo
  exact (Prod.mk.inj (Option.some.inj hinfo)).2.symm

theorem MarfsConfig.Sited.filename (hnm : config.Named) {ref : NsRef}
    (h : config.Sited ref names) : names ≠ [['.']] := by
  cases h with
  | standard leads => exact leads.filename hnm
  | @ghost g target front trail leads ghtarget walked =>
    intro hnames
    obtain ⟨hne, -⟩ := hnm.ghost_child leads ghtarget
    have hlen := congrArg List.length hnames
    rw [length_append, length_singleton] at hlen
    have hpos := length_pos_of_ne_nil hne
    rw [eq_nil_of_length_eq_zero (by omega : (trail.map Prod.fst).reverse.length = 0),
      List.append_nil] at hnames
    exact leads.filename hnm hnames

theorem Spells.names_eq {idstr : List Char} (h : Spells idstr names) (h' : Spells idstr names')
    (hslash : ∀ name ∈ names, '/' ∉ name) (hslash' : ∀ name ∈ names', '/' ∉ name)
    (hfile : names ≠ [['.']]) (hfile' : names' ≠ [['.']]) : names = names' := by
  have hdot {names : List (List Char)} (hslash : ∀ name ∈ names, '/' ∉ name)
      (hfile : names ≠ [['.']]) (htext : pathText names = ['/', '.']) : False :=
    hfile (pathText_inj hslash (by simp) (htext : pathText names = pathText [['.']]))
  obtain ⟨repo, hrepo, hsep, heq⟩ := h
  obtain ⟨repo', hrepo', hsep', heq'⟩ := h'
  rw [heq] at heq'
  have hhead (names : List (List Char)) :
      (if names = [] then ['/', '.'] else pathText names).head? = some '/' := by
    cases names with
    | nil => rfl
    | cons name names => rfl
  have htext := idString_path hrepo hsep hrepo' hsep' (hhead names) (hhead names') heq'
  by_cases hnil : names = []
  · by_cases hnil' : names' = []
    · rw [hnil, hnil']
    · rw [if_pos hnil, if_neg hnil'] at htext
      exact (hdot hslash' hfile' htext.symm).elim
  · by_cases hnil' : names' = []
    · rw [if_neg hnil, if_pos hnil'] at htext
      exact (hdot hslash hfile htext).elim
    · rw [if_neg hnil, if_neg hnil'] at htext
      exact pathText_inj hslash hslash' htext

/-- The ID string tells the namespace. -/
theorem MarfsConfig.Leads.idstr_unique (hnm : config.Named) {n m : Nat} (h : config.Leads names n)
    (h' : config.Leads names' m) (hid : (config.ns n).idstr = (config.ns m).idstr) : n = m := by
  have hspells := h.spells hnm
  rw [hid] at hspells
  exact h.unique hnm h' (hspells.names_eq (h'.spells hnm) (h.slash hnm.toTree)
    (h'.slash hnm.toTree) (h.filename hnm) (h'.filename hnm))

theorem MarfsConfig.Named.ghost_end (hnm : config.Named) {g target n : Nat} {rest : List (List Char)}
    (hg : config.Leads names g) (hghost : (config.ns g).ghtarget = some target)
    (h : config.Leads (names ++ rest) n) : rest = [] ∧ n = g := by
  rcases h.front rfl with ⟨hrest, hn⟩ | ⟨k, hk, hsub⟩
  · exact ⟨hrest, hn.unique hnm hg rfl⟩
  · obtain rfl := hk.unique hnm hg rfl
    exact absurd (hnm.ghost k (by rw [hghost]; nofun)) hsub

/-- The ID string tells the reference. -/
theorem MarfsConfig.Sited.unique (hnm : config.Named) {ref ref' : NsRef} (h : config.Sited ref names)
    (h' : config.Sited ref' names') (hid : (config.deref ref).idstr = (config.deref ref').idstr) :
    ref = ref' := by
  have hspells := h.spells hnm
  rw [hid] at hspells
  have hnames := hspells.names_eq (h'.spells hnm) (h.slash hnm.toTree) (h'.slash hnm.toTree)
    (h.filename hnm) (h'.filename hnm)
  cases h with
  | @standard n names leads ghtarget =>
    cases h' with
    | @standard n' names' leads' ghtarget' => rw [leads.unique hnm leads' hnames]
    | @ghost g target front trail leads' ghtarget' walked =>
      obtain ⟨-, rfl⟩ := hnm.ghost_end leads' ghtarget' (hnames ▸ leads)
      rw [ghtarget] at ghtarget'
      cases ghtarget'
  | @ghost g target front trail leads ghtarget walked =>
    cases h' with
    | @standard n' names' leads' ghtarget' =>
      obtain ⟨-, rfl⟩ := hnm.ghost_end leads ghtarget (hnames ▸ leads')
      rw [ghtarget'] at ghtarget
      cases ghtarget
    | @ghost g' target' front' trail' leads' ghtarget' walked' =>
      obtain ⟨hfront, htrl⟩ : front = front' ∧
          (trail.map Prod.fst).reverse = (trail'.map Prod.fst).reverse := by
        rcases List.append_eq_append_iff.1 hnames with ⟨rest, rfl, htail⟩ | ⟨rest, rfl, htail⟩
        · obtain ⟨rfl, -⟩ := hnm.ghost_end leads ghtarget leads'
          exact ⟨(List.append_nil _).symm, htail⟩
        · obtain ⟨rfl, -⟩ := hnm.ghost_end leads' ghtarget' leads
          exact ⟨List.append_nil _, htail.symm⟩
      obtain rfl := leads.unique hnm leads' hfront
      rw [ghtarget] at ghtarget'
      obtain rfl := Option.some.inj ghtarget'
      obtain rfl := walked.unique hnm walked' (reverse_injective htrl)
      rfl

theorem MarfsConfig.Sited.target (hnm : config.Named) {ref : NsRef} {target : Nat}
    (h : config.Sited ref names) (htgt : (config.deref ref).ghtarget = some target) :
    (∃ names, config.Leads names target) ∧ ∃ g,
      (config.deref ref).iperms = (config.ns g).iperms &&& (config.ns target).iperms ∧
      (config.deref ref).bperms = (config.ns g).bperms &&& (config.ns target).bperms := by
  cases h with
  | standard leads ghtarget =>
    rw [MarfsConfig.deref, ghtarget] at htgt
    cases htgt
  | @ghost g t front trail leads ghtarget walked =>
    obtain rfl : trailTarget t trail = target := Option.some.inj htgt
    obtain ⟨names, ht⟩ := hnm.target g t ghtarget
    exact ⟨⟨_, walked.leads ht⟩, g, rfl, rfl⟩

end Names

/-! ## Moves -/

section Moves

variable {config : MarfsConfig} {pos pos' : MarfsPosition}

def MarfsConfig.Rooted (config : MarfsConfig) : Place → Prop
  | .standard n => ∃ names, config.Leads names n
  | .ghost g _ _ => ∃ names, config.Leads names g

def MarfsPosition.Sited (config : MarfsConfig) (pos : MarfsPosition) : Prop :=
  ∃ names, config.Sited pos.ns names

theorem MarfsPosition.Sited.stands (hnm : config.Named) (h : pos.Sited config) :
    ∃ place, Stands config pos place ∧ config.Rooted place := by
  obtain ⟨names, h⟩ := h
  generalize hns : pos.ns = ref at h
  cases h with
  | standard leads ghtarget => exact ⟨_, .standard hns ghtarget, _, leads⟩
  | ghost leads ghtarget walked =>
    obtain ⟨-, parent, name, hchild⟩ := hnm.ghost_child leads ghtarget
    exact ⟨_, .ghost hns ghtarget hchild walked, _, leads⟩

theorem Stands.sited {place : Place} (h : Stands config pos place) (hrooted : config.Rooted place) :
    pos.Sited config := by
  cases h with
  | standard ns ghtarget =>
    obtain ⟨names, leads⟩ := hrooted
    exact ⟨names, ns ▸ .standard leads ghtarget⟩
  | ghost ns ghtarget child walked =>
    obtain ⟨names, leads⟩ := hrooted
    have hsited := MarfsConfig.Sited.ghost leads ghtarget walked
    exact ⟨_, ns ▸ hsited⟩

theorem MarfsConfig.Leads.parent (hnm : config.Named) {names : List (List Char)} {n parent : Nat}
    (h : config.Leads names n) (hpar : (config.ns n).pnamespace = some parent) :
    ∃ names, config.Leads names parent := by
  cases h with
  | root =>
    rw [hnm.rootparent] at hpar
    cases hpar
  | @sub names n node h mem =>
    rw [hnm.child n node mem] at hpar
    exact ⟨names, Option.some.inj hpar ▸ h⟩

theorem MarfsPosition.Sited.move (hnm : config.Named) (h : pos.Sited config) {direction : Direction}
    (hmove : Move config pos pos' direction) : pos'.Sited config := by
  obtain ⟨place, hstand, hrooted⟩ := h.stands hnm
  obtain ⟨place', hplc, hstand'⟩ := hstand.move hnm.toTree hmove
  refine hstand'.sited ?_
  cases hstand with
  | @standard n ns ghtarget =>
    obtain ⟨names, leads⟩ := hrooted
    cases hmove with
    | @down name subspace updatectxt child entered =>
      rw [ns] at child
      have hsub : config.Leads (names ++ [name]) subspace := .sub leads child
      rw [Place.move] at hplc
      split at hplc <;> cases hplc <;> exact ⟨_, hsub⟩
    | up =>
      obtain ⟨parent, hpar, rfl⟩ := Option.map_eq_some_iff.1 hplc
      exact leads.parent hnm hpar
  | @ghost g target parent name trail ns ghtarget child walked =>
    cases hmove with
    | down =>
      cases hplc
      exact hrooted
    | up =>
      cases trail with
      | nil =>
        obtain ⟨names, leads⟩ := hrooted
        obtain ⟨parent, hpar, rfl⟩ := Option.map_eq_some_iff.1 hplc
        exact leads.parent hnm hpar
      | cons node trail =>
        cases hplc
        exact hrooted

end Moves

/-! ## Traversal -/

section Traversal

variable {mdal : Mdal} {config : MarfsConfig} {pos pos' : MarfsPosition}

/-- What is left after a pass or after the loop. -/
def LoopStep.All {σ ρ : Type} (next : σ → Prop) (done : ρ → Prop) : LoopStep σ ρ → Prop
  | .next state => next state
  | .done result => done result

def Shifted.Sited (config : MarfsConfig) : Shifted → Prop
  | .shifted pos _ => pos.Sited config
  | _ => True

theorem shiftStep_sited (hnm : config.Named) (h : pos.Sited config) (path : List Char) :
    (shiftStep mdal config pos path).All (fun state => state.1.Sited config)
      (Shifted.Sited config) := by
  unfold shiftStep
  split
  next => exact h
  next =>
    split
    next =>
      split
      next pos' entered => exact h.move hnm (.up entered)
      next =>
        split
        · trivial
        · exact h
      next => trivial
    next =>
      split
      next => exact h
      next =>
        split
        next =>
          split
          · trivial
          · exact h
        next subspace hlook =>
          split
          next pos' entered => exact h.move hnm (.down (mem_of_lookup hlook) entered)
          next => trivial

theorem shiftLoop_sited (hnm : config.Named) (fuel : Nat) (h : pos.Sited config) (path : List Char) :
    (shiftLoop mdal config fuel pos path).Sited config := by
  induction fuel generalizing pos path with
  | zero => exact h
  | succ fuel ih =>
    have hstep := @shiftStep_sited mdal _ _ hnm h path
    unfold shiftLoop
    split
    next pos' rest heq =>
      rw [heq] at hstep
      exact ih hstep rest
    next result heq =>
      rw [heq] at hstep
      exact hstep

theorem configShiftns_sited (hnm : config.Named) (h : pos.Sited config) (path : List Char) :
    (configShiftns mdal config pos path).Sited config := shiftLoop_sited hnm _ h path

def Traversed.Sited (config : MarfsConfig) : Traversed → Prop
  | .done pos _ _ => pos.Sited config
  | _ => True

theorem MarfsConfig.Named.root_sited (hnm : config.Named) (hns : pos.ns = .table config.rootns) :
    pos.Sited config := ⟨[], hns ▸ .standard .root hnm.rootghost⟩

theorem substituteLink_sited (hnm : config.Named) {state : TraverseState} (h : state.pos.Sited config)
    (content : List Char) :
    (substituteLink config state content).All (fun state => state.pos.Sited config)
      (Traversed.Sited config) := by
  unfold substituteLink
  split
  next => trivial
  next =>
    dsimp only
    split
    next =>
      split
      next => trivial
      next =>
        dsimp only [LoopStep.All]
        split
        · exact hnm.root_sited rfl
        · next hroot => exact hnm.root_sited (Decidable.not_not.1 hroot)
    next => exact h

theorem enterElem_sited (hnm : config.Named) {state : TraverseState} (h : state.pos.Sited config)
    (linkchk : Nat) :
    (enterElem mdal config linkchk state).All (fun state => state.pos.Sited config)
      (Traversed.Sited config) := by
  unfold enterElem
  dsimp only
  split
  next =>
    split
    next => trivial
    next content _ => exact substituteLink_sited hnm h content
    next => exact h
  next => exact h

theorem traverseStep_sited (hnm : config.Named) {state : TraverseState} (h : state.pos.Sited config)
    (linkchk : Nat) :
    (traverseStep mdal config linkchk state).All (fun state => state.pos.Sited config)
      (Traversed.Sited config) := by
  have hshift := @configShiftns_sited mdal _ _ hnm h state.pathelem
  unfold traverseStep
  dsimp only
  split
  next => exact h
  next =>
    split
    next =>
      split
      next =>
        split
        next pos' rest heq =>
          rw [heq] at hshift
          split
          · trivial
          · exact hshift
        next => trivial
        next => trivial
      next => exact h
    next =>
      split
      next => exact h
      next =>
        split
        next =>
          split
          next pos' rest heq =>
            rw [heq] at hshift
            split
            · exact hshift
            · refine enterElem_sited hnm ?_ linkchk
              exact hshift
          next => trivial
          next => trivial
        next => exact enterElem_sited hnm h linkchk

theorem traverseLoop_sited (hnm : config.Named) {fuel linkchk : Nat} {state : TraverseState}
    (h : state.pos.Sited config) {result : Traversed}
    (hres : traverseLoop mdal config linkchk fuel state = some result) : result.Sited config := by
  induction fuel generalizing state with
  | zero => cases hres
  | succ fuel ih =>
    have hstep := @traverseStep_sited mdal _ hnm _ h linkchk
    unfold traverseLoop at hres
    split at hres
    next state' heq =>
      rw [heq] at hstep
      exact ih hstep hres
    next result' heq =>
      rw [heq] at hstep
      exact Option.some.inj hres ▸ hstep

theorem configTraverse_sited (hnm : config.Named) {fuel linkchk : Nat} {path : List Char}
    (h : pos.Sited config) {result : Traversed}
    (hres : configTraverse mdal config fuel pos path linkchk = some result) : result.Sited config := by
  unfold configTraverse at hres
  split at hres
  next =>
    cases hres
    trivial
  next =>
    split at hres
    next =>
      split at hres
      next =>
        cases hres
        trivial
      next rest hvalid =>
        have hroot : (if pos.ns ≠ .table config.rootns ∨ pos.depth ≠ 0 then
            configEstablishposition config else pos).Sited config := by
          split
          · exact hnm.root_sited rfl
          · next hroot =>
            exact hnm.root_sited (Decidable.not_not.1 fun hne => hroot (.inl hne))
        dsimp only at hres
        split at hres
        next =>
          cases hres
          exact hroot
        next => exact traverseLoop_sited hnm hroot hres
    next => exact traverseLoop_sited hnm h hres

end Traversal

end Marfs.Config
