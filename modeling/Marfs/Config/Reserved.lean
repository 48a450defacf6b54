import Marfs.Config.TraverseResult
import Marfs.Path.Fronts

/-!
# Reserved entries

The MDAL keeps its own entries at the root of a namespace, beside the subspaces.  A path that a traversal
returns is read from the resulting position: no name met at the root is reserved.  At depth zero every name
has been through `config_shiftns` in the namespace the position is in, and the text in front of it is given
up whenever the namespace changes.
-/

namespace Marfs.Config

open Marfs.Path List

/-! ## Reading a path -/

def readDepth : Nat → List (List Char) → Nat
  | depth, [] => depth
  | depth, name :: names =>
    readDepth
      (if name = ['.'] then depth else if name = ['.', '.'] then depth - 1 else depth + 1) names

def Guarded (reserved : List Char → Prop) : Nat → List (List Char) → Prop
  | _, [] => True
  | depth, name :: names =>
    if name = ['.'] then Guarded reserved depth names
    else if name = ['.', '.'] then 0 < depth ∧ Guarded reserved (depth - 1) names
    else (depth = 0 → ¬reserved name) ∧ Guarded reserved (depth + 1) names

def Reserved (mdal : Mdal) (ns : MarfsNs) (name : List Char) : Prop :=
  mdal.pathfilter ns.prepo name = true ∨ (ns.subnodes.lookup name).isSome

section Reading

variable {reserved : List Char → Prop} {depth : Nat} {names rest : List (List Char)} {name : List Char}

theorem readDepth_append : readDepth depth (names ++ rest) = readDepth (readDepth depth names) rest := by
  induction names generalizing depth with
  | nil => rfl
  | cons name names ih => exact ih

theorem guarded_append (h : Guarded reserved depth names)
    (hrest : Guarded reserved (readDepth depth names) rest) : Guarded reserved depth (names ++ rest) := by
  induction names generalizing depth with
  | nil => exact hrest
  | cons name names ih =>
    rw [cons_append]
    unfold Guarded at h ⊢
    unfold readDepth at hrest
    by_cases hhere : name = ['.']
    · simp only [hhere, if_true] at h hrest ⊢
      exact ih h hrest
    · by_cases hup : name = ['.', '.']
      · subst hup
        simp only [hhere, if_false, if_true] at h hrest ⊢
        exact ⟨h.1, ih h.2 hrest⟩
      · simp only [hhere, hup, if_false] at h hrest ⊢
        exact ⟨h.1, ih h.2 hrest⟩

end Reading

/-! ## The MDAL of a posix file system -/

def pmdalPrefx : List Char := "MDAL_".toList

/-- The loop of `posixmdal_pathfilter`: at a character, with what is still to be matched of the prefix;
`none` once the element is known to differ. -/
def pathfilterLoop : List Char → Option (List Char) → Bool
  | [], _ => false
  | c :: parse, compat =>
    let compat :=
      match compat with
      | some (r :: reserved) => if c = r then some reserved else none
      | _ => none
    if compat = some [] then true
    else pathfilterLoop parse (if c = '/' then some pmdalPrefx else compat)

def posixmdalPathfilter (path : List Char) : Bool := pathfilterLoop path (some pmdalPrefx)

/-! ## Shifting -/

section Shift

variable {mdal : Mdal} {config : MarfsConfig} {pos pos' : MarfsPosition} {path path' : List Char}

/-- A text begins with a name that may stand at the root of a namespace. -/
structure Checked (mdal : Mdal) (ns : MarfsNs) (path : List Char) : Prop where
  up : firstElem '/' path ≠ ['.', '.']
  here : firstElem '/' path ≠ ['.']
  unreserved : ¬Reserved mdal ns (firstElem '/' path)

theorem validateLoop_head {fuel : Nat} {cur : Cursor} (hhead : path.head? ≠ some '/')
    (h : validateLoop fuel cur path = some path') : path'.head? ≠ some '/' := by
  induction fuel generalizing cur path with
  | zero => cases h
  | succ fuel ih =>
    rw [validateLoop] at h
    split_ifs at h
    · split at h
      · cases h
      · exact ih (nextElem_head path) h
    · exact ih (nextElem_head path) h
    · exact Option.some.inj h ▸ hhead
    · exact Option.some.inj h ▸ nextElem_head path
    · exact ih (nextElem_head path) h

theorem validatemnt_head (h : configValidatemnt config none path = some path') :
    path'.head? ≠ some '/' :=
  validateLoop_head (skipSep_head path) h

theorem shiftStep_head (h : shiftStep mdal config pos path = .next (pos', path')) :
    path'.head? ≠ some '/' := (shiftStep_pass h).2.head

theorem shiftStep_checked (h : shiftStep mdal config pos path = .done (.shifted pos' path')) :
    pos' = pos ∧ path' = path ∧ (path = [] ∨ Checked mdal (config.deref pos.ns) path) := by
  obtain ⟨hpos, hpath, hrest⟩ := shiftStep_stops h
  refine ⟨hpos, hpath, hrest.imp_right fun ⟨hup, hhere, hlook, hfilt⟩ => ⟨hup, hhere, ?_⟩⟩
  rintro (hbad | hbad)
  · exact hfilt hbad
  · rw [hlook] at hbad
    cases hbad

theorem shiftLoop_checked {fuel : Nat} (hfuel : path.length ≤ fuel) (hhead : path.head? ≠ some '/')
    (h : shiftLoop mdal config fuel pos path = .shifted pos' path') :
    path'.head? ≠ some '/' ∧ path'.length ≤ path.length ∧
      (path' = [] ∨ Checked mdal (config.deref pos'.ns) path') := by
  induction fuel generalizing pos path with
  | zero =>
    cases h
    exact ⟨hhead, Nat.le_refl _, .inl (List.length_eq_zero_iff.mp (Nat.le_zero.mp hfuel))⟩
  | succ fuel ih =>
    rw [shiftLoop] at h
    split at h
    · rename_i pos1 path1 hstep
      have hlt := shiftStep_length_lt hhead hstep
      obtain ⟨hhead', hle, hcheck⟩ := ih (by omega) (shiftStep_head hstep) h
      exact ⟨hhead', by omega, hcheck⟩
    · rename_i result hstep
      subst h
      obtain ⟨rfl, rfl, hcheck⟩ := shiftStep_checked hstep
      exact ⟨hhead, Nat.le_refl _, hcheck⟩

theorem shiftns_checked (hhead : path.head? ≠ some '/')
    (h : configShiftns mdal config pos path = .shifted pos' path') :
    path'.head? ≠ some '/' ∧ (path' = [] ∨ Checked mdal (config.deref pos'.ns) path') := by
  obtain ⟨hhead', -, hcheck⟩ := shiftLoop_checked (Nat.le_refl _) hhead h
  exact ⟨hhead', hcheck⟩

theorem shiftns_stays (hhead : path.head? ≠ some '/')
    (h : configShiftns mdal config pos path = .shifted pos' path) : pos' = pos := by
  unfold configShiftns at h
  cases hlen : path.length with
  | zero =>
    rw [hlen] at h
    cases h
    rfl
  | succ fuel =>
    rw [hlen, shiftLoop] at h
    split at h
    · rename_i pos1 path1 hstep
      have hlt := shiftStep_length_lt hhead hstep
      obtain ⟨-, hle, -⟩ := shiftLoop_checked (by omega) (shiftStep_head hstep) h
      omega
    · rename_i result hstep
      subst h
      exact (shiftStep_checked hstep).1

end Shift

/-! ## Traversing -/

section Traverse

variable {mdal : Mdal} {config : MarfsConfig} {linkchk : Nat} {state state' : TraverseState}

/-- The invariant of the loop: what is in front of the current element, read from the position, leads to
the depth, and meets nothing reserved. -/
structure Guarding (mdal : Mdal) (config : MarfsConfig) (state : TraverseState) : Prop where
  head : state.pathelem.head? ≠ some '/'
  front : ∃ front, state.relpath = front ++ state.pathelem ∧
    (state.pathelem = [] ∨ front = [] ∨ front.getLast? = some '/') ∧
    Guarded (Reserved mdal (config.deref state.pos.ns)) state.pos.depth (components '/' front) ∧
    readDepth state.pos.depth (components '/' front) = state.depth
  nonNS : state.nonNS = true →
    state.pathelem = [] ∨ Checked mdal (config.deref state.pos.ns) state.pathelem

theorem Guarding.fresh {pos : MarfsPosition} {path : List Char} {nonNS : Bool} (hhead : path.head? ≠ some '/')
    (hcheck : nonNS = true → path = [] ∨ Checked mdal (config.deref pos.ns) path) :
    Guarding mdal config ⟨pos, path, path, pos.depth, nonNS⟩ :=
  ⟨hhead, ⟨[], rfl, .inr (.inl rfl), by simp [Guarded], by simp [readDepth]⟩, hcheck⟩

theorem exists_elem {path : List Char} (hhead : path.head? ≠ some '/') (hne : path ≠ []) :
    ∃ elem, elem ++ nextElem '/' path = path ∧ components '/' elem = [firstElem '/' path] ∧
      (nextElem '/' path = [] ∨ elem.getLast? = some '/') := by
  have hname := components_elem (firstElem_ne_nil hhead hne) (sep_notMem_firstElem path)
  rcases skipElem_cases '/' path with hend | ⟨rest, hrest⟩
  · have hnext : nextElem '/' path = [] := by
      unfold nextElem
      rw [hend]
      rfl
    refine ⟨firstElem '/' path, ?_, hname, .inl hnext⟩
    rw [hnext, ← hend, firstElem_append]
  · have hseps : ∀ c ∈ '/' :: rest.takeWhile (· = '/'), c = '/' := by
      intro c hc
      rcases List.mem_cons.mp hc with rfl | hc
      · rfl
      · simpa using List.all_eq_true.1 all_takeWhile c hc
    refine ⟨firstElem '/' path ++ '/' :: rest.takeWhile (· = '/'), ?_, ?_, .inr ?_⟩
    · have hnext : nextElem '/' path = rest.dropWhile (· = '/') := by
        unfold nextElem skipSep
        rw [hrest, dropWhile_cons_of_pos (by simp)]
      rw [hnext, append_assoc, cons_append, takeWhile_append_dropWhile, ← hrest,
        firstElem_append]
    · have hnil := components_seps (fun c hc => hseps c (mem_cons_of_mem _ hc)) []
      rw [List.append_nil, components_nil] at hnil
      rw [components_append_sep, hnil, hname]
      rfl
    · rw [List.getLast?_append_of_ne_nil _ (cons_ne_nil _ _),
        List.getLast?_eq_some_getLast (cons_ne_nil _ _)]
      exact congrArg some (hseps _ (getLast_mem _))

theorem Guarding.elem {depth : Nat} (h : Guarding mdal config state) (hne : state.pathelem ≠ [])
    (hguard : Guarded (Reserved mdal (config.deref state.pos.ns)) state.depth
      [firstElem '/' state.pathelem]) (hdep : readDepth state.depth [firstElem '/' state.pathelem] = depth) :
    Guarding mdal config
      { state with pathelem := nextElem '/' state.pathelem, depth := depth, nonNS := false } := by
  obtain ⟨front, hrel, hcl, hguarded, hread⟩ := h.front
  have hcl := hcl.resolve_left hne
  obtain ⟨elem, helem, hcomps, hend⟩ := exists_elem h.head hne
  refine ⟨nextElem_head _, ⟨front ++ elem, ?_, ?_, ?_, ?_⟩, nofun⟩
  · rw [append_assoc, helem]
    exact hrel
  · rcases hend with hnil | hsep
    · exact .inl hnil
    · refine .inr (.inr ?_)
      rw [List.getLast?_append, hsep]
      rfl
  · rw [Front.components_append hcl, hcomps]
    exact guarded_append hguarded (hread ▸ hguard)
  · rw [Front.components_append hcl, hcomps, readDepth_append, hread]
    exact hdep

theorem Guarding.subdir (h : Guarding mdal config state) (hne : state.pathelem ≠ [])
    (hup : firstElem '/' state.pathelem ≠ ['.', '.']) (hhere : firstElem '/' state.pathelem ≠ ['.'])
    (hfree : state.depth = 0 → ¬Reserved mdal (config.deref state.pos.ns) (firstElem '/' state.pathelem)) :
    Guarding mdal config
      { state with pathelem := nextElem '/' state.pathelem, depth := state.depth + 1, nonNS := false } := by
  apply h.elem hne
  · simp only [Guarded, if_neg hhere, if_neg hup]
    exact ⟨hfree, trivial⟩
  · simp only [readDepth, if_neg hhere, if_neg hup]

theorem Guarding.link {content : List Char} (h : Guarding mdal config state) (hne : state.pathelem ≠ [])
    (hstep : substituteLink config state content = .next state') : Guarding mdal config state' := by
  unfold substituteLink at hstep
  split at hstep
  · cases hstep
  · rename_i hcont
    have hcont : content ≠ [] := fun hnil => hcont (.inl hnil)
    dsimp only at hstep
    split at hstep
    · split at hstep
      · cases hstep
      · rename_i parsestart hvalid
        have hhead := validatemnt_head hvalid
        split at hstep <;> cases hstep <;> exact .fresh hhead nofun
    · rename_i habs
      cases hstep
      obtain ⟨front, hrel, hcl, hguard, hread⟩ := h.front
      have hkept : state.relpath.take (state.relpath.length - state.pathelem.length) = front := by
        rw [hrel, length_append, Nat.add_sub_cancel, take_left]
      refine ⟨?_, ⟨front, ?_, .inr (hcl.resolve_left hne), hguard, hread⟩, nofun⟩
      · rw [List.head?_append_of_ne_nil _ hcont]
        exact habs
      · simp only [hkept]

theorem Guarding.enter (h : Guarding mdal config state) (hne : state.pathelem ≠ [])
    (hup : firstElem '/' state.pathelem ≠ ['.', '.']) (hhere : firstElem '/' state.pathelem ≠ ['.'])
    (hfree : state.depth = 0 → ¬Reserved mdal (config.deref state.pos.ns) (firstElem '/' state.pathelem))
    (hstep : enterElem mdal config linkchk state = .next state') : Guarding mdal config state' := by
  unfold enterElem at hstep
  dsimp only at hstep
  split at hstep
  · split at hstep
    · cases hstep
    · exact h.link hne hstep
    · cases hstep
      exact h.subdir hne hup hhere hfree
  · cases hstep
    exact h.subdir hne hup hhere hfree

/-- Where a name is taken for a directory or a link the position is kept, and at the root of a namespace
the name was checked. -/
theorem Guarding.entered (h : Guarding mdal config state) {pos : MarfsPosition}
    (hent : enterPos mdal config state = some pos) :
    pos = state.pos ∧ state.pathelem ≠ [] ∧ firstElem '/' state.pathelem ≠ ['.', '.'] ∧
      firstElem '/' state.pathelem ≠ ['.'] ∧
      (state.depth = 0 → Checked mdal (config.deref state.pos.ns) state.pathelem) := by
  obtain ⟨hnil, hup, hhere, ⟨hres, -⟩ | ⟨hpos, hnonNS⟩⟩ := enterPos_cases hent
  · obtain rfl := shiftns_stays h.head hres
    have hcheck := (shiftns_checked h.head hres).2.resolve_left hnil
    exact ⟨rfl, hnil, hup, hhere, fun _ => hcheck⟩
  · exact ⟨hpos, hnil, hup, hhere, fun hzero => (h.nonNS (hnonNS hzero)).resolve_left hnil⟩

/-- One pass through the loop. -/
theorem Guarding.step (h : Guarding mdal config state)
    (hstep : traverseStep mdal config linkchk state = .next state') : Guarding mdal config state' := by
  obtain ⟨hne, hpass⟩ := traverseStep_pass hstep
  cases hpass with
  | up hup hdep =>
    apply h.elem hne
    · rw [hup]
      exact ⟨Nat.pos_of_ne_zero hdep, trivial⟩
    · rw [hup]
      rfl
  | here hhere =>
    apply h.elem hne
    · rw [hhere]
      trivial
    · rw [hhere]
      rfl
  | shift hzero hhere hres hmov =>
    obtain ⟨hhead, hcheck⟩ := shiftns_checked h.head hres
    unfold shiftState
    rw [hzero]
    exact .fresh hhead fun _ => hcheck
  | enter henter hent =>
    obtain ⟨rfl, -, hup, hhere, hcheck⟩ := h.entered henter
    exact h.enter hne hup hhere (fun hzero => (hcheck hzero).unreserved) hent

theorem Guarding.done {fuel depth : Nat} {pos : MarfsPosition} {subpath : List Char}
    (h : Guarding mdal config state)
    (hdone : traverseLoop mdal config linkchk fuel state = some (.done pos subpath depth)) :
    Guarded (Reserved mdal (config.deref pos.ns)) pos.depth (components '/' subpath) := by
  induction fuel generalizing state with
  | zero => cases hdone
  | succ fuel ih =>
    rw [traverseLoop] at hdone
    split at hdone
    · rename_i hstep
      exact ih (h.step hstep) hdone
    · rename_i result hstep
      obtain rfl := Option.some.inj hdone
      obtain ⟨hend, rfl, rfl, -⟩ := traverseStep_done hstep
      obtain ⟨front, hrel, -, hguard, -⟩ := h.front
      rw [hrel, hend, List.append_nil]
      exact hguard

end Traverse

/-- For every position, path and graph of links: in a path that is returned nothing reserved is met at the
root of the namespace, and it never leads up from there. -/
theorem configTraverse_guarded {mdal : Mdal} {config : MarfsConfig} {fuel linkchk depth : Nat}
    {pos pos' : MarfsPosition} {path subpath : List Char}
    (h : configTraverse mdal config fuel pos path linkchk = some (.done pos' subpath depth)) :
    Guarded (Reserved mdal (config.deref pos'.ns)) pos'.depth (components '/' subpath) := by
  unfold configTraverse at h
  split at h
  · cases h
  split at h
  · split at h
    · cases h
    · rename_i parsepath hvalid
      dsimp only at h
      split at h
      · cases h
        have hhere : components '/' ['.'] = [['.']] := components_elem (by decide) (by decide)
        rw [hhere]
        trivial
      · refine Guarding.done (?_ : Guarding mdal config _) h
        exact .fresh (validatemnt_head hvalid) nofun
  · rename_i hrel
    refine Guarding.done (?_ : Guarding mdal config _) h
    exact .fresh hrel nofun

/-! ### Links out of a directory -/

def sampleLinks : Mdal where
  pathfilter _ := posixmdalPathfilter
  stat _ path :=
    if path = "d/l".toList then .link "../m".toList
    else if path = "d/r".toList then .link "../MDAL_reference".toList
    else .other

theorem samplePlain_guarded :
    Guarded (Reserved sampleLinks (samplePlain.deref (.table 0))) 0 (components '/' "d/../m/x".toList) := by
  have hdone : configTraverse sampleLinks samplePlain 20 ⟨.table 0, 0, some (.plain 0 [])⟩ "d/l/x".toList 1 =
      some (.done ⟨.table 0, 0, some (.plain 0 [])⟩ "d/../m/x".toList 2) := by decide
  exact configTraverse_guarded hdone

example : configTraverse sampleLinks samplePlain 20 ⟨.table 0, 0, some (.plain 0 [])⟩ "d/r/x".toList 1 =
    some .failed := by decide

end Marfs.Config
