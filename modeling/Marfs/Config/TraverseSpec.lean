import Marfs.Config.Pass
import Marfs.Config.Ghost

/-!
# Traversal follows resolution

The loops of `config_traverse` and `config_shiftns` walk the components of a path.  The invariant relates
the walk to the position: once another namespace was entered, the context is rooted in the namespace;
before, it is the one the traversal began with.  The relative path begins anew whenever the namespace was
shifted, so the two agree unless MarFS was left through its root and no other namespace was entered.
-/

namespace Marfs.Config

open Marfs.Path List

/-! ## Configs without ghosts -/

structure MarfsConfig.Plain (config : MarfsConfig) : Prop extends config.Tree where
  ghtarget : ∀ n, (config.ns n).ghtarget = none
  root : (config.ns config.rootns).pnamespace = none
  mountpoint : config.mountpoint = [] ∨ config.mountpoint.head? = some '/'

/-- The namespaces of the tree. -/
inductive MarfsConfig.Below (config : MarfsConfig) : Nat → Prop
  | root : config.Below config.rootns
  | child {n : Nat} {node : List Char × Nat} (below : config.Below n)
    (child : node ∈ (config.ns n).subnodes) : config.Below node.2

/-- A position in a directory of a namespace. -/
structure MarfsPosition.In (pos : MarfsPosition) (n : Nat) (dir : List (List Char)) : Prop where
  ns : pos.ns = .table n
  ctxt : pos.ctxt = some (.plain n dir)
  depth : pos.depth = dir.length

/-- What a position and a path from its context denote: a namespace and a path below its root.  Without a
context the path begins at the root of the namespace. -/
def MarfsPosition.denotes (pos : MarfsPosition) (subpath : List Char) :
    Option (Nat × List (List Char)) :=
  match pos.ns, pos.ctxt with
  | .table n, some (.plain n' dir) =>
    if n' = n then (descend dir (components '/' subpath)).map fun dir => (n, dir) else none
  | .table n, none => (descend [] (components '/' subpath)).map fun dir => (n, dir)
  | _, _ => none

section Below

variable {config : MarfsConfig} {n m : Nat}

theorem MarfsConfig.Plain.parent (hplain : config.Plain) (h : config.Below n) {parent : Nat}
    (hpar : (config.ns n).pnamespace = some parent) : config.Below parent := by
  cases h with
  | root =>
    rw [hplain.root] at hpar
    cases hpar
  | @child n node below child =>
    rw [hplain.child n node child] at hpar
    exact Option.some.inj hpar ▸ below

theorem MarfsConfig.Plain.eq_root (hplain : config.Plain) (h : config.Below n)
    (hpar : (config.ns n).pnamespace = none) : n = config.rootns := by
  cases h with
  | root => rfl
  | @child n node below child =>
    rw [hplain.child n node child] at hpar
    cases hpar

theorem MarfsConfig.Plain.parent_ne (hplain : config.Plain) (hpar : (config.ns n).pnamespace = some m) :
    m ≠ n := by
  obtain ⟨height, hheight⟩ := hplain.acyclic
  rintro rfl
  exact Nat.lt_irrefl _ (hheight _ _ hpar)

theorem mem_of_lookup {nodes : List (List Char × Nat)} {name : List Char} {subspace : Nat}
    (h : nodes.lookup name = some subspace) : (name, subspace) ∈ nodes := by
  obtain ⟨front, back, rfl, -⟩ := List.lookup_eq_some_iff.1 h
  exact mem_append_right _ mem_cons_self

end Below

/-! ## One namespace to the next -/

section Enterns

variable {config : MarfsConfig} {pos pos' : MarfsPosition} {n m : Nat} {base : List (List Char)}
  {relpath : List Char} {updatectxt : Bool}

theorem setnamespace_plain
    (hnext : (relpath = ['.', '.'] ∧ (config.ns n).pnamespace = some m) ∨
      (relpath ≠ ['.', '.'] ∧ (config.ns n).subnodes.lookup relpath = some m)) :
    config.setnamespace (some (.plain n base)) relpath = some (.plain m []) := by
  rcases hnext with ⟨hup, hpar⟩ | ⟨hdown, hlook⟩
  · rw [MarfsConfig.setnamespace, if_pos hup, hpar]
    rfl
  · rw [MarfsConfig.setnamespace, if_neg hdown, hlook]
    rfl

theorem refresh_plain (hns : pos.ns = .table m) (h : refresh config pos updatectxt = .entered pos') :
    pos' = ⟨.table m, pos.depth, if updatectxt then some (.plain m []) else none⟩ := by
  obtain ⟨ns, depth, ctxt⟩ := pos
  obtain rfl : ns = .table m := hns
  unfold refresh at h
  dsimp only at h
  cases updatectxt with
  | false =>
    rw [if_neg Bool.false_ne_true] at h
    exact (Entered.entered.inj h).symm
  | true =>
    rw [if_pos rfl] at h
    cases hfortify : configFortifyposition config ⟨.table m, depth, none⟩ with
    | none => rw [hfortify] at h; cases h
    | some fortified =>
      rw [hfortify] at h
      obtain rfl := Entered.entered.inj h
      obtain ⟨_, -, heq⟩ := Option.bind_eq_some_iff.1 hfortify
      exact (Option.some.inj heq).symm

/-- Into a standard namespace: with a context at its root, or without one. -/
theorem enterns_plain (hplain : config.Plain) (hns : pos.ns = .table n)
    (hctxt : pos.ctxt = some (.plain n base)) {ascending : Bool}
    (hnext : (relpath = ['.', '.'] ∧ (config.ns n).pnamespace = some m) ∨
      (relpath ≠ ['.', '.'] ∧ (config.ns n).subnodes.lookup relpath = some m))
    (h : configEnterns config pos (some m) relpath ascending updatectxt = .entered pos') :
    pos' = ⟨.table m, pos.depth, if updatectxt then some (.plain m []) else none⟩ := by
  have hderef : config.deref pos.ns = config.ns n := by
    rw [hns]
    rfl
  unfold configEnterns at h
  simp only [hderef, hplain.source n, hplain.ghtarget m] at h
  unfold enterStandard at h
  dsimp only at h
  split at h
  · next hsame =>
    rw [hctxt, setnamespace_plain hnext] at h
    rw [← Entered.entered.inj h, if_pos hsame.2]
  · have hrefresh := @refresh_plain config { pos with ns := .table m } pos' m updatectxt rfl h
    exact hrefresh

/-- A namespace without a parent is left for the mountpoint, any other one is not. -/
theorem enterns_exits (hplain : config.Plain) (hns : pos.ns = .table n) :
    configEnterns config pos (config.deref pos.ns).pnamespace ['.', '.'] true true = .exits ↔
      (config.ns n).pnamespace = none := by
  have hderef : config.deref pos.ns = config.ns n := by
    rw [hns]
    rfl
  unfold configEnterns
  simp only [hderef, hplain.source n]
  cases hpar : (config.ns n).pnamespace with
  | none => exact ⟨fun _ => rfl, fun _ => rfl⟩
  | some parent =>
    refine iff_of_false (fun h => ?_) nofun
    simp only [hplain.ghtarget parent] at h
    unfold enterStandard refresh at h
    dsimp only at h
    split at h
    · split at h <;> cases h
    · split at h
      · split at h <;> cases h
      · cases h

end Enterns

/-! ## The walk and the position -/

/-- What the loops keep: after some components, walked from a directory of a namespace, the position is
at the namespace the walk got to. -/
structure Walked (config : MarfsConfig) (n₀ : Nat) (base consumed : List (List Char))
    (pos : MarfsPosition) (n : Nat) (dir : List (List Char)) (pathelem : List Char) : Prop where
  ns : pos.ns = .table n
  below : config.Below n
  resolves : config.resolve (.within n₀ base) consumed = .within n dir
  entered : config.Enters n₀ (.within n₀ base) consumed →
    pos.ctxt = some (.plain n []) ∨ pos.ctxt = none ∧ dir = [] ∧ pathelem = []
  stayed : ¬config.Enters n₀ (.within n₀ base) consumed → n = n₀ ∧ pos.ctxt = some (.plain n₀ base)

/-- The walk got into another namespace, or it left MarFS. -/
def Shifts (config : MarfsConfig) (n₀ : Nat) (base consumed : List (List Char)) : Prop :=
  config.Enters n₀ (.within n₀ base) consumed ∨ config.Leaves (.within n₀ base) consumed

section Walked

variable {config : MarfsConfig} {n₀ n : Nat} {base consumed dir dir' : List (List Char)}
  {pos : MarfsPosition} {pathelem name : List Char}

theorem Shifts.append (h : Shifts config n₀ base consumed) (names : List (List Char)) :
    Shifts config n₀ base (consumed ++ names) :=
  h.imp (fun h => passes_append.2 (Or.inl h)) fun h => passes_append.2 (Or.inl h)

theorem Walked.ctxt (h : Walked config n₀ base consumed pos n dir pathelem) (hne : pathelem ≠ []) :
    ∃ dir, pos.ctxt = some (.plain n dir) := by
  by_cases hent : config.Enters n₀ (.within n₀ base) consumed
  · rcases h.entered hent with hctxt | ⟨-, -, hnil⟩
    · exact ⟨[], hctxt⟩
    · exact absurd hnil hne
  · obtain ⟨rfl, hctxt⟩ := h.stayed hent
    exact ⟨base, hctxt⟩

theorem Walked.within (h : Walked config n₀ base consumed pos n dir pathelem) (hne : pathelem ≠ [])
    (pathelem' : List Char) (hwalk : config.walk (.within n dir) name = .within n dir') :
    Walked config n₀ base (consumed ++ [name]) pos n dir' pathelem' ∧
      (¬(dir = [] ∧ name = ['.', '.']) →
        (Shifts config n₀ base (consumed ++ [name]) ↔ Shifts config n₀ base consumed)) := by
  have hent : config.Enters n₀ (.within n₀ base) (consumed ++ [name]) ↔
      config.Enters n₀ (.within n₀ base) consumed := by
    refine passes_append.trans ⟨?_, Or.inl⟩
    rintro (henter | henter)
    · exact henter
    · by_contra hnot
      rw [h.resolves] at henter
      rcases henter with ⟨ns', dir'', heq, hns'⟩ | henter
      · rw [hwalk] at heq
        exact hns' ((Location.within.inj heq).1.symm.trans (h.stayed hnot).1)
      · exact henter
  refine ⟨⟨h.ns, h.below, ?_, ?_, ?_⟩, fun hnot => or_congr hent ?_⟩
  · rw [resolve_append, h.resolves, resolve_cons, hwalk, resolve_nil]
  · intro henter
    rcases h.entered (hent.1 henter) with hctxt | ⟨-, -, hnil⟩
    · exact Or.inl hctxt
    · exact absurd hnil hne
  · exact fun hstay => h.stayed fun henter => hstay (hent.2 henter)
  · refine passes_append.trans ⟨?_, Or.inl⟩
    rintro (hleav | hleav)
    · exact hleav
    · rw [h.resolves] at hleav
      rcases hleav with ⟨heq, hname⟩ | hleav
      · exact absurd ⟨(Location.within.inj heq).2, hname⟩ hnot
      · exact hleav.elim

theorem Walked.enter (h : Walked config n₀ base consumed pos n dir pathelem) {m : Nat} (hm : m ≠ n)
    (hbelow : config.Below m) (hwalk : config.walk (.within n dir) name = .within m [])
    {pos' : MarfsPosition} {pathelem' : List Char} (hns : pos'.ns = .table m)
    (hctxt : pos'.ctxt = some (.plain m []) ∨ pos'.ctxt = none ∧ pathelem' = []) :
    Walked config n₀ base (consumed ++ [name]) pos' m [] pathelem' ∧
      config.Enters n₀ (.within n₀ base) (consumed ++ [name]) := by
  have hent : config.Enters n₀ (.within n₀ base) (consumed ++ [name]) := by
    by_cases henter : config.Enters n₀ (.within n₀ base) consumed
    · exact passes_append.2 (Or.inl henter)
    · refine passes_append.2 (Or.inr (Or.inl ⟨m, [], ?_, ?_⟩))
      · rw [h.resolves, hwalk]
      · exact fun heq => hm (heq.trans (h.stayed henter).1.symm)
  refine ⟨⟨hns, hbelow, ?_, fun _ => ?_, fun hnot => absurd hent hnot⟩, hent⟩
  · rw [resolve_append, h.resolves, resolve_cons, hwalk, resolve_nil]
  · exact hctxt.imp_right fun ⟨hnone, hnil⟩ => ⟨hnone, rfl, hnil⟩

theorem Walked.leave (hplain : config.Plain) (h : Walked config n₀ base consumed pos n [] pathelem)
    (hne : pathelem ≠ []) (hroot : (config.ns n).pnamespace = none) {path rest : List Char}
    (hreach : Reaches config config.mount.dropLast path rest) :
    ∃ names, components '/' path = names ++ components '/' rest ∧
      Walked config n₀ base (consumed ++ ['.', '.'] :: names) pos n [] rest ∧
      config.Leaves (.within n₀ base) (consumed ++ ['.', '.'] :: names) := by
  obtain ⟨names, hnames, hresol, hstay⟩ := hreach.resolves
  obtain rfl := hplain.eq_root h.below hroot
  have hwalk : config.walk (.within config.rootns []) ['.', '.'] =
      config.settle config.mount.dropLast := by
    rw [walk_up, MarfsConfig.parent, if_pos rfl, hroot]
  have hpart : ¬config.Enters config.rootns (.within config.rootns []) (['.', '.'] :: names) := by
    rintro (henter | henter)
    · exact not_enters_settle hwalk henter
    · exact hstay (hwalk ▸ henter)
  have hent : config.Enters n₀ (.within n₀ base) (consumed ++ ['.', '.'] :: names) ↔
      config.Enters n₀ (.within n₀ base) consumed := by
    refine passes_append.trans ⟨?_, Or.inl⟩
    rintro (henter | henter)
    · exact henter
    · by_contra hnot
      rw [h.resolves] at henter
      obtain ⟨rfl, -⟩ := h.stayed hnot
      exact hpart henter
  refine ⟨names, hnames, ⟨h.ns, h.below, ?_, ?_, ?_⟩, ?_⟩
  · rw [resolve_append, h.resolves, resolve_cons, hwalk, hresol]
  · intro henter
    rcases h.entered (hent.1 henter) with hctxt | ⟨-, -, hnil⟩
    · exact Or.inl hctxt
    · exact absurd hnil hne
  · exact fun hnot => h.stayed fun henter => hnot (hent.2 henter)
  · exact passes_append.2 (Or.inr (Or.inl ⟨h.resolves, rfl⟩))

end Walked

/-! ## Shifting -/

/-- A text begins with a name that is no subspace. -/
structure NonNs (config : MarfsConfig) (n : Nat) (path : List Char) : Prop where
  up : firstElem '/' path ≠ ['.', '.']
  here : firstElem '/' path ≠ ['.']
  lookup : (config.ns n).subnodes.lookup (firstElem '/' path) = none

structure Forward (config : MarfsConfig) (n₀ : Nat) (base consumed : List (List Char))
    (path : List Char) (names : List (List Char)) (pos' : MarfsPosition) (n' : Nat) (path' : List Char) :
    Prop where
  components : components '/' path = names ++ components '/' path'
  walked : Walked config n₀ base (consumed ++ names) pos' n' [] path'
  head : path'.head? ≠ some '/'
  suffix : path' <:+ path

section Shift

variable {mdal : Mdal} {config : MarfsConfig} {n₀ n : Nat} {base consumed : List (List Char)}
  {pos pos' : MarfsPosition} {path path' rest : List Char}

theorem shiftStep_length_lt (hhead : path.head? ≠ some '/')
    (h : shiftStep mdal config pos path = .next (pos', path')) : path'.length < path.length := by
  obtain ⟨hnil, hpass⟩ := shiftStep_pass h
  exact hpass.suffix.length_le.trans_lt (nextElem_length_lt hhead hnil)

/-- Components were walked, so less is left of the text. -/
theorem Forward.length_lt {names : List (List Char)} {n' : Nat}
    (h : Forward config n₀ base consumed path names pos' n' path') (hne : names ≠ []) :
    path'.length < path.length := by
  refine lt_of_le_of_ne h.suffix.length_le fun hlen => hne ?_
  have hcomps := h.components
  rw [h.suffix.eq_of_length hlen] at hcomps
  exact List.self_eq_append_left.1 hcomps

theorem shiftStep_next (hplain : config.Plain)
    (hwalked : Walked config n₀ base consumed pos n [] path) (hhead : path.head? ≠ some '/')
    (h : shiftStep mdal config pos path = .next (pos', path')) :
    ∃ names n', names ≠ [] ∧ Forward config n₀ base consumed path names pos' n' path' ∧
      (firstElem '/' path = ['.'] ∨ Shifts config n₀ base (consumed ++ names)) := by
  have hderef : config.deref pos.ns = config.ns n := by
    rw [hwalked.ns]
    rfl
  obtain ⟨hnil, hpass⟩ := shiftStep_pass h
  have hcomps := components_eq_cons hhead hnil
  obtain ⟨dir, hctxt⟩ := hwalked.ctxt hnil
  cases hpass with
  | up hup hent =>
    rw [hup] at hcomps
    cases hpar : (config.ns n).pnamespace with
    | none =>
      rw [(enterns_exits hplain hwalked.ns).2 hpar] at hent
      cases hent
    | some parent =>
      rw [hderef, hpar] at hent
      have hpos := enterns_plain hplain hwalked.ns hctxt (Or.inl ⟨rfl, hpar⟩) hent
      have hwalk : config.walk (.within n []) ['.', '.'] = .within parent [] := by
        rw [walk_up, MarfsConfig.parent, if_pos rfl, hpar]
      have hpos' : pos'.ctxt = some (.plain parent []) ∨ pos'.ctxt = none ∧ nextElem '/' path = [] := by
        rw [hpos, if_pos rfl]
        exact Or.inl rfl
      obtain ⟨hnext, henters⟩ := hwalked.enter (hplain.parent_ne hpar)
        (hplain.parent hwalked.below hpar) hwalk (congrArg MarfsPosition.ns hpos) hpos'
      exact ⟨[['.', '.']], parent, cons_ne_nil _ _,
        ⟨hcomps, hnext, nextElem_head path, nextElem_suffix path⟩, Or.inr (Or.inl henters)⟩
  | back hup hexits hvalid =>
    rw [hup] at hcomps
    have hroot := (enterns_exits hplain hwalked.ns).1 hexits
    have hreach := validatemnt_relative hplain.mountpoint (nextElem_head path) hvalid
    rw [skipSep_of_head hreach.head]
    obtain ⟨names, hnames, hnext, hleav⟩ := hwalked.leave hplain hnil hroot hreach
    refine ⟨['.', '.'] :: names, n, cons_ne_nil _ _,
      ⟨?_, hnext, hreach.head, (validatemnt_suffix hvalid).trans (nextElem_suffix path)⟩,
      Or.inr (Or.inr hleav)⟩
    rw [hcomps, hnames]
    rfl
  | here hhere =>
    rw [hhere] at hcomps
    have hnext := (hwalked.within hnil (nextElem '/' path) (walk_here _)).1
    exact ⟨[['.']], n, cons_ne_nil _ _,
      ⟨hcomps, hnext, nextElem_head path, nextElem_suffix path⟩, Or.inl hhere⟩
  | @down _ subspace hup hhere hlook hent =>
    rw [hderef] at hlook
    have hpos := enterns_plain hplain hwalked.ns hctxt (Or.inr ⟨hup, hlook⟩) hent
    have hchild := mem_of_lookup hlook
    have hwalk : config.walk (.within n []) (firstElem '/' path) = .within subspace [] := by
      rw [walk_entry hup hhere, MarfsConfig.entry, if_pos rfl, hlook]
    have hne : subspace ≠ n := (hplain.parent_ne (hplain.child n _ hchild)).symm
    have hpos' : pos'.ctxt = some (.plain subspace []) ∨ pos'.ctxt = none ∧ nextElem '/' path = [] := by
      by_cases hend : nextElem '/' path = []
      · exact Or.inr ⟨by rw [hpos, if_neg (by simpa using hend)], hend⟩
      · exact Or.inl (by rw [hpos, if_pos (by simpa using hend)])
    obtain ⟨hnext, henters⟩ := hwalked.enter hne (.child hwalked.below hchild) hwalk
      (congrArg MarfsPosition.ns hpos) hpos'
    exact ⟨[firstElem '/' path], subspace, cons_ne_nil _ _,
      ⟨hcomps, hnext, nextElem_head path, nextElem_suffix path⟩, Or.inr (Or.inl henters)⟩

theorem shiftStep_done (hwalk : Walked config n₀ base consumed pos n [] path)
    (h : shiftStep mdal config pos path = .done (.shifted pos' rest)) :
    pos' = pos ∧ rest = path ∧ (rest = [] ∨ NonNs config n rest) := by
  have hderef : config.deref pos.ns = config.ns n := by
    rw [hwalk.ns]
    rfl
  obtain ⟨rfl, rfl, hrest⟩ := shiftStep_stops h
  refine ⟨rfl, rfl, hrest.imp_right fun ⟨hup, hhere, hlook, _⟩ => ⟨hup, hhere, ?_⟩⟩
  rw [← hderef]
  exact hlook

theorem shiftLoop_forward (hplain : config.Plain) {fuel : Nat}
    (hwalk : Walked config n₀ base consumed pos n [] path) (hhead : path.head? ≠ some '/')
    (hfuel : path.length ≤ fuel) (h : shiftLoop mdal config fuel pos path = .shifted pos' rest) :
    ∃ names n', Forward config n₀ base consumed path names pos' n' rest ∧
      (rest = [] ∨ NonNs config n' rest) ∧ (names = [] → rest = path) ∧
      (firstElem '/' path = ['.'] ∨ names = [] ∨ Shifts config n₀ base (consumed ++ names)) := by
  have hstay : Forward config n₀ base consumed path [] pos n path :=
    ⟨rfl, by rwa [List.append_nil], hhead, suffix_rfl⟩
  induction fuel generalizing consumed pos n path with
  | zero =>
    obtain ⟨rfl, rfl⟩ := Shifted.shifted.inj h
    have hnil : path = [] := List.length_eq_zero_iff.1 (Nat.le_zero.1 hfuel)
    exact ⟨[], n, hstay, Or.inl hnil, fun _ => rfl, Or.inr (Or.inl rfl)⟩
  | succ fuel ih =>
    rw [shiftLoop] at h
    split at h
    · next posNext pathNext hstep =>
      obtain ⟨names, m, hne, hfwd, hshift⟩ := shiftStep_next hplain hwalk hhead hstep
      have hlt := hfwd.length_lt hne
      obtain ⟨names', n', hfwd', hrest, -, -⟩ := ih hfwd.walked hfwd.head (by omega) h
        ⟨rfl, by rw [List.append_nil]; exact hfwd.walked, hfwd.head, suffix_rfl⟩
      refine ⟨names ++ names', n', ⟨?_, ?_, hfwd'.head, hfwd'.suffix.trans hfwd.suffix⟩,
        hrest, fun hnil => absurd (List.append_eq_nil_iff.1 hnil).1 hne, ?_⟩
      · rw [hfwd.components, hfwd'.components, append_assoc]
      · rw [← append_assoc]
        exact hfwd'.walked
      · rw [← append_assoc]
        exact hshift.imp_right fun hshift => Or.inr (hshift.append names')
    · next result hstep =>
      subst h
      obtain ⟨rfl, rfl, hrest⟩ := shiftStep_done hwalk hstep
      exact ⟨[], n, hstay, hrest, fun _ => rfl, Or.inr (Or.inl rfl)⟩

end Shift

/-! ## Traversing -/

/-- The invariant of the loop: the depth is that of the walk, and the relative path leads there, from the
root of the namespace once the namespace was shifted. -/
structure Traversing (config : MarfsConfig) (n₀ : Nat) (base consumed : List (List Char))
    (state : TraverseState) (n : Nat) (dir : List (List Char)) : Prop where
  walked : Walked config n₀ base consumed state.pos n dir state.pathelem
  depth : state.depth = dir.length
  head : state.pathelem.head? ≠ some '/'
  relpath : ∃ names, components '/' state.relpath = names ++ components '/' state.pathelem ∧
    (Shifts config n₀ base consumed → descend [] names = some dir) ∧
    (¬Shifts config n₀ base consumed → descend base names = some dir)
  nonNS : state.nonNS = true → state.pathelem = [] ∨ NonNs config n state.pathelem

section Traverse

variable {mdal : Mdal} {config : MarfsConfig} {n₀ n : Nat} {base consumed dir dir' : List (List Char)}
  {state state' : TraverseState}

theorem Traversing.within (h : Traversing config n₀ base consumed state n dir) (hne : state.pathelem ≠ [])
    (hwalk : config.walk (.within n dir) (firstElem '/' state.pathelem) = .within n dir')
    (hdesc : descend dir [firstElem '/' state.pathelem] = some dir') :
    Traversing config n₀ base (consumed ++ [firstElem '/' state.pathelem])
      { state with pathelem := nextElem '/' state.pathelem, depth := dir'.length, nonNS := false }
      n dir' := by
  obtain ⟨names, hnames, hshifted, hunshifted⟩ := h.relpath
  have hnot : ¬(dir = [] ∧ firstElem '/' state.pathelem = ['.', '.']) := by
    rintro ⟨rfl, hup⟩
    rw [hup] at hdesc
    cases hdesc
  obtain ⟨hwalked, hshifts⟩ := h.walked.within hne (nextElem '/' state.pathelem) hwalk
  refine ⟨hwalked, rfl, nextElem_head _, ⟨names ++ [firstElem '/' state.pathelem], ?_, ?_, ?_⟩, nofun⟩
  · rw [hnames, components_eq_cons h.head hne, append_assoc]
    rfl
  · intro hshift
    rw [descend_append (hshifted ((hshifts hnot).1 hshift)), hdesc]
  · intro hshift
    rw [descend_append (hunshifted fun hshift' => hshift ((hshifts hnot).2 hshift')), hdesc]

variable {pos : MarfsPosition} {names : List (List Char)} {rest subpath : List Char} {n' depth fuel : Nat}

theorem Traversing.shifted (h : Traversing config n₀ base consumed state n [])
    (hfwd : Forward config n₀ base consumed state.pathelem names pos n' rest)
    (hrest : rest = [] ∨ NonNs config n' rest) (hshift : Shifts config n₀ base (consumed ++ names)) :
    Traversing config n₀ base (consumed ++ names) (shiftState state pos rest) n' [] where
  walked := by
    obtain ⟨hns, hbelow, hresolves, hent, hstayed⟩ := hfwd.walked
    exact ⟨hns, hbelow, hresolves, hent, hstayed⟩
  depth := h.depth
  head := hfwd.head
  relpath := ⟨[], rfl, fun _ => rfl, fun hnot => absurd hshift hnot⟩
  nonNS _ := hrest

/-- Where the namespace was not shifted. -/
theorem Traversing.unshifted (h : Traversing config n₀ base consumed state n [])
    (hfwd : Forward config n₀ base consumed state.pathelem names pos n' rest)
    (hrest : rest = state.pathelem) :
    n' = n ∧ Traversing config n₀ base consumed { state with pos := pos } n [] := by
  subst hrest
  obtain rfl : names = [] := List.self_eq_append_left.1 hfwd.components
  have hwalk := hfwd.walked
  rw [List.append_nil] at hwalk
  have heq := h.walked.resolves.symm.trans hwalk.resolves
  obtain rfl := (Location.within.inj heq).1
  exact ⟨rfl, hwalk, h.depth, h.head, h.relpath, h.nonNS⟩

/-- A directory. -/
theorem Traversing.subdir (h : Traversing config n₀ base consumed state n dir)
    (hne : state.pathelem ≠ []) (hup : firstElem '/' state.pathelem ≠ ['.', '.'])
    (hhere : firstElem '/' state.pathelem ≠ ['.'])
    (hlook : dir = [] → (config.ns n).subnodes.lookup (firstElem '/' state.pathelem) = none)
    (hstep : enterElem mdal config 0 state = .next state') :
    ∃ names n' dir', Traversing config n₀ base (consumed ++ names) state' n' dir' ∧
      components '/' state.pathelem = names ++ components '/' state'.pathelem ∧
      state'.pathelem.length < state.pathelem.length := by
  have hwalk : config.walk (.within n dir) (firstElem '/' state.pathelem) =
      .within n (dir ++ [firstElem '/' state.pathelem]) := by
    rw [walk_entry hup hhere, MarfsConfig.entry]
    split_ifs with hnil
    · rw [hlook hnil]
    · rfl
  have hdesc : descend dir [firstElem '/' state.pathelem] =
      some (dir ++ [firstElem '/' state.pathelem]) := by
    rw [descend, if_neg hup, if_neg hhere, descend]
  have hnext := h.within hne hwalk hdesc
  have hdep : (dir ++ [firstElem '/' state.pathelem]).length = state.depth + 1 := by
    rw [length_append, h.depth]
    rfl
  rw [hdep] at hnext
  obtain rfl := LoopStep.next.inj hstep
  exact ⟨_, n, _, hnext, components_eq_cons h.head hne, nextElem_length_lt h.head hne⟩

theorem traverseStep_next (hplain : config.Plain)
    (h : Traversing config n₀ base consumed state n dir)
    (hstep : traverseStep mdal config 0 state = .next state') :
    ∃ names n' dir', Traversing config n₀ base (consumed ++ names) state' n' dir' ∧
      components '/' state.pathelem = names ++ components '/' state'.pathelem ∧
      state'.pathelem.length < state.pathelem.length := by
  have hshift : ∀ {pos rest}, state.depth = 0 →
      configShiftns mdal config state.pos state.pathelem = .shifted pos rest →
      ∃ names n', dir = [] ∧ Forward config n₀ base consumed state.pathelem names pos n' rest ∧
        (rest = [] ∨ NonNs config n' rest) ∧ (names = [] → rest = state.pathelem) ∧
        (firstElem '/' state.pathelem = ['.'] ∨ names = [] ∨
          Shifts config n₀ base (consumed ++ names)) := by
    intro pos rest hdep hres
    obtain rfl : dir = [] := List.length_eq_zero_iff.1 (h.depth.symm.trans hdep)
    obtain ⟨names, n', hfwd⟩ := shiftLoop_forward hplain h.walked h.head le_rfl hres
    exact ⟨names, n', rfl, hfwd⟩
  obtain ⟨hnil, hpass⟩ := traverseStep_pass hstep
  cases hpass with
  | up hup hdep =>
    have hdir : dir ≠ [] := fun hnil' => hdep (by rw [h.depth, hnil']; rfl)
    have hwalk : config.walk (.within n dir) (firstElem '/' state.pathelem) =
        .within n dir.dropLast := by
      rw [hup, walk_up, MarfsConfig.parent, if_neg hdir]
    have hdesc : descend dir [firstElem '/' state.pathelem] = some dir.dropLast := by
      rw [descend, if_pos hup, if_neg hdir, descend]
    have hnext := h.within hnil hwalk hdesc
    rw [length_dropLast, ← h.depth] at hnext
    exact ⟨_, n, _, hnext, components_eq_cons h.head hnil, nextElem_length_lt h.head hnil⟩
  | here hhere =>
    have hwalk : config.walk (.within n dir) (firstElem '/' state.pathelem) = .within n dir := by
      rw [hhere, walk_here]
    have hdesc : descend dir [firstElem '/' state.pathelem] = some dir := by
      rw [descend, if_neg (here_ne_up hhere), if_pos hhere, descend]
    have hnext := h.within hnil hwalk hdesc
    rw [← h.depth] at hnext
    exact ⟨_, n, _, hnext, components_eq_cons h.head hnil, nextElem_length_lt h.head hnil⟩
  | shift hzero hhere hres hmov =>
    obtain ⟨names, n', rfl, hfwd, hrest, hstay, hshifts⟩ := hshift hzero hres
    have hnames : names ≠ [] := fun hnil' => hmov (hstay hnil')
    have hshift' := (hshifts.resolve_left hhere).resolve_left hnames
    exact ⟨names, n', [], h.shifted hfwd hrest hshift', hfwd.components,
      hfwd.length_lt hnames⟩
  | enter henter hent =>
    obtain ⟨-, hup, hhere, ⟨hres, hzero⟩ | ⟨rfl, hnonNS⟩⟩ := enterPos_cases henter
    · obtain ⟨names, n', rfl, hfwd, hrest, -, -⟩ := hshift hzero hres
      obtain ⟨rfl, hunshifted⟩ := h.unshifted hfwd rfl
      have hlook := (hrest.resolve_left hnil).lookup
      exact hunshifted.subdir hnil hup hhere (fun _ => hlook) hent
    · refine h.subdir hnil hup hhere (fun hdir => ?_) hent
      have hzero : state.depth = 0 := by rw [h.depth, hdir]; rfl
      exact ((h.nonNS (hnonNS hzero)).resolve_left hnil).lookup

theorem traverseStep_done {linkchk : Nat}
    (hstep : traverseStep mdal config linkchk state = .done (.done pos subpath depth)) :
    state.pathelem = [] ∧ pos = state.pos ∧ subpath = state.relpath ∧ depth = state.depth := by
  have hent : ∀ state' : TraverseState,
      enterElem mdal config linkchk state' ≠ .done (.done pos subpath depth) := by
    intro state' hent
    unfold enterElem substituteLink at hent
    dsimp only at hent
    split at hent
    · split at hent
      · cases hent
      · split at hent
        · cases hent
        · split at hent
          · split at hent <;> cases hent
          · cases hent
      · cases hent
    · cases hent
  rw [traverseStep] at hstep
  by_cases hnil : state.pathelem = []
  · rw [if_pos hnil] at hstep
    obtain ⟨rfl, rfl, rfl⟩ := Traversed.done.inj (LoopStep.done.inj hstep)
    exact ⟨hnil, rfl, rfl, rfl⟩
  rw [if_neg hnil] at hstep
  split at hstep
  · split at hstep
    · split at hstep
      · split at hstep <;> cases hstep
      · cases hstep
      · cases hstep
    · cases hstep
  · split at hstep
    · cases hstep
    · split at hstep
      · split at hstep
        · split at hstep
          · cases hstep
          · exact absurd hstep (hent _)
        · cases hstep
        · cases hstep
      · exact absurd hstep (hent _)

theorem traverseLoop_done (hplain : config.Plain) (h : Traversing config n₀ base consumed state n dir)
    (hres : traverseLoop mdal config 0 fuel state = some (.done pos subpath depth)) :
    ∃ final n' dir', Traversing config n₀ base (consumed ++ components '/' state.pathelem) final n' dir' ∧
      final.pathelem = [] ∧ pos = final.pos ∧ subpath = final.relpath ∧ depth = final.depth := by
  induction fuel generalizing consumed state n dir with
  | zero => cases hres
  | succ fuel ih =>
    rw [traverseLoop] at hres
    split at hres
    · next state' hstep =>
      obtain ⟨names, n', dir', hnext, hcomps, -⟩ := traverseStep_next hplain h hstep
      have hfinal := ih hnext hres
      rw [append_assoc, ← hcomps] at hfinal
      exact hfinal
    · next result hstep =>
      obtain rfl := Option.some.inj hres
      obtain ⟨hnil, heq⟩ := traverseStep_done hstep
      refine ⟨state, n, dir, ?_, hnil, heq⟩
      rw [hnil, components_nil, List.append_nil]
      exact h

end Traverse

end Marfs.Config
