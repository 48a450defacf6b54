import Marfs.Config.Loop
import Marfs.Config.TraverseSpec

/-!
# What traversal returns

Paths with the same components are traversed alike.  What a traversal returns denotes what the path
resolves to, unless the path leaves MarFS from a working directory and comes back without another
namespace in between: then the context is still that of the working directory.
-/

namespace Marfs.Config

open Marfs.Path (components firstElem nextElem skipSep components_nil skipSep_head components_eq_cons
  components_skipSep)

/-! ## Repeated separators -/

inductive Shifted.Same : Shifted → Shifted → Prop
  | shifted {pos : MarfsPosition} {rest rest' : List Char} (same : Path.Same '/' rest rest') :
    Shifted.Same (.shifted pos rest) (.shifted pos rest')
  | failed : Shifted.Same .failed .failed
  | crashed : Shifted.Same .crashed .crashed

/-- Two results of `config_traverse` for the same path. -/
inductive Traversed.Same : Traversed → Traversed → Prop
  | done {pos : MarfsPosition} {subpath subpath' : List Char} {depth : Nat}
    (same : components '/' subpath = components '/' subpath') :
    Traversed.Same (.done pos subpath depth) (.done pos subpath' depth)
  | failed : Traversed.Same .failed .failed
  | crashed : Traversed.Same .crashed .crashed

structure TraverseState.Same (state state' : TraverseState) : Prop where
  pos : state.pos = state'.pos
  relpath : components '/' state.relpath = components '/' state'.relpath
  pathelem : Path.Same '/' state.pathelem state'.pathelem
  depth : state.depth = state'.depth
  nonNS : state.nonNS = state'.nonNS

section Repeated

variable {mdal : Mdal} {config : MarfsConfig} {pos : MarfsPosition} {path path' : List Char}

theorem shiftStep_same (hsame : Path.Same '/' path path') :
    LoopStep.Rel (fun a b => a.1 = b.1 ∧ Path.Same '/' a.2 b.2) Shifted.Same
      (shiftStep mdal config pos path) (shiftStep mdal config pos path') := by
  rw [shiftStep, shiftStep]
  by_cases hnil : path = []
  · rw [if_pos hnil, if_pos (hsame.eq_nil.1 hnil)]
    exact .done (.shifted hsame)
  obtain ⟨hfst, hnext⟩ := hsame.cons hnil
  rw [if_neg hnil, if_neg fun hnil' => hnil (hsame.eq_nil.2 hnil'), hfst]
  by_cases hup : firstElem '/' path' = ['.', '.']
  · rw [if_pos hup, if_pos hup]
    split
    · exact .next ⟨rfl, hnext⟩
    · have hvalid : Option.Rel (Path.Same '/')
          (configValidatemnt config (some pos.ns) (nextElem '/' path))
          (configValidatemnt config (some pos.ns) (nextElem '/' path')) :=
        validatemnt_same hnext.components fun _ => ⟨hnext.head, hnext.head'⟩
      generalize configValidatemnt config (some pos.ns) (nextElem '/' path) = res at hvalid
      generalize configValidatemnt config (some pos.ns) (nextElem '/' path') = res' at hvalid
      cases hvalid with
      | none => exact .done .failed
      | some hrest =>
        refine .next ⟨rfl, ?_, skipSep_head _, skipSep_head _⟩
        rw [components_skipSep, components_skipSep, hrest.components]
    · exact .done .crashed
  rw [if_neg hup, if_neg hup]
  by_cases hhere : firstElem '/' path' = ['.']
  · rw [if_pos hhere, if_pos hhere]
    exact .next ⟨rfl, hnext⟩
  rw [if_neg hhere, if_neg hhere]
  cases (config.deref pos.ns).subnodes.lookup (firstElem '/' path') with
  | none =>
    dsimp only
    split
    · exact .done .failed
    · exact .done (.shifted hsame)
  | some subspace =>
    have hend : (decide (nextElem '/' path ≠ [])) = decide (nextElem '/' path' ≠ []) :=
      Bool.eq_iff_iff.2 (by simp [hnext.eq_nil])
    dsimp only
    rw [hend]
    split
    · exact .next ⟨rfl, hnext⟩
    · exact .done .failed

theorem shiftLoop_same {fuel fuel' : Nat} (hsame : Path.Same '/' path path')
    (hfuel : path.length ≤ fuel) (hfuel' : path'.length ≤ fuel') :
    Shifted.Same (shiftLoop mdal config fuel pos path) (shiftLoop mdal config fuel' pos path') := by
  induction fuel generalizing fuel' pos path path' with
  | zero =>
    obtain rfl := List.length_eq_zero_iff.1 (Nat.le_zero.1 hfuel)
    obtain rfl := hsame.eq_nil.1 rfl
    cases fuel' with
    | zero => exact .shifted hsame
    | succ fuel' => exact .shifted hsame
  | succ fuel ih =>
    cases fuel' with
    | zero =>
      obtain rfl := List.length_eq_zero_iff.1 (Nat.le_zero.1 hfuel')
      obtain rfl := hsame.eq_nil.2 rfl
      exact .shifted hsame
    | succ fuel' =>
      have hstep : LoopStep.Rel (fun a b => a.1 = b.1 ∧ Path.Same '/' a.2 b.2) Shifted.Same
          (shiftStep mdal config pos path) (shiftStep mdal config pos path') := shiftStep_same hsame
      rw [shiftLoop, shiftLoop]
      generalize hleft : shiftStep mdal config pos path = left at hstep
      generalize hright : shiftStep mdal config pos path' = right at hstep
      cases hstep with
      | @next state state' same =>
        obtain ⟨pos₁, rest⟩ := state
        obtain ⟨pos₂, rest'⟩ := state'
        obtain ⟨rfl, hrest⟩ := same
        have hlt := shiftStep_length_lt hsame.head hleft
        have hlt' := shiftStep_length_lt hsame.head' hright
        exact ih hrest (by omega) (by omega)
      | done same => exact same

variable {n₀ n : Nat} {base consumed dir : List (List Char)} {state state' : TraverseState}

theorem Traversing.same (h : Traversing config n₀ base consumed state n dir)
    (hsame : state.Same state') : Traversing config n₀ base consumed state' n dir := by
  obtain ⟨hpos, hrel, hpath, hdep, hnonNS⟩ := hsame
  obtain ⟨⟨hns, hbelow, hresolves, hent, hstayed⟩, hdir, hhead, ⟨names, hnames, hleads⟩, hlook⟩ := h
  rw [hpos] at hns hent hstayed
  refine ⟨⟨hns, hbelow, hresolves, fun henters => ?_, hstayed⟩, hdep ▸ hdir, hpath.head',
    ⟨names, ?_, hleads⟩, fun hnon => ?_⟩
  · exact (hent henters).imp_right fun ⟨hnone, hnil, hend⟩ => ⟨hnone, hnil, hpath.eq_nil.1 hend⟩
  · rw [← hrel, hnames, hpath.components]
  · by_cases hnil : state.pathelem = []
    · exact Or.inl (hpath.eq_nil.1 hnil)
    · obtain ⟨hfst, -⟩ := hpath.cons hnil
      obtain ⟨hup, hhere, hnone⟩ := (hlook (hnonNS.trans hnon)).resolve_left hnil
      rw [hfst] at hup hhere hnone
      exact Or.inr ⟨hup, hhere, hnone⟩

theorem shiftres_eq_iff (hplain : config.Plain) (h : Traversing config n₀ base consumed state n [])
    {rest : List Char} {pos' : MarfsPosition}
    (hshift : configShiftns mdal config state.pos state.pathelem = .shifted pos' rest) :
    rest = state.pathelem ↔ components '/' rest = components '/' state.pathelem := by
  obtain ⟨names, n', hfwd, -, hstay, -⟩ := shiftLoop_forward hplain h.walked h.head le_rfl hshift
  refine ⟨congrArg _, fun heq => hstay ?_⟩
  have hcomps := hfwd.components
  rw [heq] at hcomps
  exact List.self_eq_append_left.1 hcomps

theorem enterElem_same (hsame : state.Same state') (hne : state.pathelem ≠ []) :
    LoopStep.Rel TraverseState.Same Traversed.Same (enterElem mdal config 0 state)
      (enterElem mdal config 0 state') := by
  obtain ⟨hpos, hrel, hpath, hdep, hnonNS⟩ := hsame
  exact .next ⟨hpos, hrel, (hpath.cons hne).2, congrArg (· + 1) hdep, rfl⟩

theorem traverseStep_same (hplain : config.Plain)
    (h : Traversing config n₀ base consumed state n dir) (hsame : state.Same state') :
    LoopStep.Rel TraverseState.Same Traversed.Same (traverseStep mdal config 0 state)
      (traverseStep mdal config 0 state') := by
  have h' := h.same hsame
  have hshift : Shifted.Same (configShiftns mdal config state.pos state.pathelem)
      (configShiftns mdal config state'.pos state'.pathelem) := by
    rw [← hsame.pos]
    exact shiftLoop_same hsame.pathelem le_rfl le_rfl
  have hmov : ∀ {pos rest rest'}, state.depth = 0 →
      configShiftns mdal config state.pos state.pathelem = .shifted pos rest →
      configShiftns mdal config state'.pos state'.pathelem = .shifted pos rest' →
      Path.Same '/' rest rest' → (rest = state.pathelem ↔ rest' = state'.pathelem) := by
    intro pos rest rest' hzero hleft hright hrest
    obtain rfl : dir = [] := List.length_eq_zero_iff.1 (h.depth.symm.trans hzero)
    rw [shiftres_eq_iff hplain h hleft, shiftres_eq_iff hplain h' hright, hrest.components,
      hsame.pathelem.components]
  rw [traverseStep, traverseStep]
  by_cases hnil : state.pathelem = []
  · rw [if_pos hnil, if_pos (hsame.pathelem.eq_nil.1 hnil), hsame.pos, hsame.depth]
    exact .done (.done hsame.relpath)
  obtain ⟨hfst, hnext⟩ := hsame.pathelem.cons hnil
  have hnil' : state'.pathelem ≠ [] := fun hnil' => hnil (hsame.pathelem.eq_nil.2 hnil')
  rw [if_neg hnil, if_neg hnil', hfst, ← hsame.depth, ← hsame.nonNS]
  generalize hleft : configShiftns mdal config state.pos state.pathelem = left at hshift
  generalize hright : configShiftns mdal config state'.pos state'.pathelem = right at hshift
  by_cases hup : firstElem '/' state'.pathelem = ['.', '.']
  · rw [if_pos hup, if_pos hup]
    by_cases hzero : state.depth = 0
    · rw [if_pos hzero, if_pos hzero]
      cases hshift with
      | shifted hrest =>
        dsimp only
        have hiff := hmov hzero hleft hright hrest
        split_ifs with hstay hstay' hstay'
        · exact .done .failed
        · exact absurd (hiff.1 hstay) hstay'
        · exact absurd (hiff.2 hstay') hstay
        · exact .next ⟨rfl, hrest.components, hrest, hsame.depth, rfl⟩
      | failed => exact .done .failed
      | crashed => exact .done .crashed
    · rw [if_neg hzero, if_neg hzero]
      exact .next ⟨hsame.pos, hsame.relpath, hnext, rfl, rfl⟩
  rw [if_neg hup, if_neg hup]
  by_cases hhere : firstElem '/' state'.pathelem = ['.']
  · rw [if_pos hhere, if_pos hhere]
    exact .next ⟨hsame.pos, hsame.relpath, hnext, rfl, rfl⟩
  rw [if_neg hhere, if_neg hhere]
  by_cases hcheck : state.depth = 0 ∧ state.nonNS = false
  · rw [if_pos hcheck, if_pos hcheck]
    cases hshift with
    | shifted hrest =>
      dsimp only
      have hiff := hmov hcheck.1 hleft hright hrest
      split_ifs with hstay hstay' hstay'
      · exact .next ⟨rfl, hrest.components, hrest, hsame.depth, rfl⟩
      · exact absurd (hiff.2 (not_not.1 hstay')) hstay
      · exact absurd (hiff.1 (not_not.1 hstay)) hstay'
      · exact enterElem_same ⟨rfl, hsame.relpath, hsame.pathelem, rfl, rfl⟩ hnil
    | failed => exact .done .failed
    | crashed => exact .done .crashed
  · rw [if_neg hcheck, if_neg hcheck]
    exact enterElem_same hsame hnil

theorem traverseLoop_same (hplain : config.Plain) {fuel : Nat}
    (h : Traversing config n₀ base consumed state n dir) (hsame : state.Same state') :
    Option.Rel Traversed.Same (traverseLoop mdal config 0 fuel state)
      (traverseLoop mdal config 0 fuel state') := by
  induction fuel generalizing consumed state state' n dir with
  | zero => exact .none
  | succ fuel ih =>
    have hstep : LoopStep.Rel TraverseState.Same Traversed.Same (traverseStep mdal config 0 state)
        (traverseStep mdal config 0 state') := traverseStep_same hplain h hsame
    rw [traverseLoop, traverseLoop]
    generalize hleft : traverseStep mdal config 0 state = left at hstep
    generalize traverseStep mdal config 0 state' = right at hstep
    cases hstep with
    | next same =>
      obtain ⟨names, n', dir', hnext, -⟩ := traverseStep_next hplain h hleft
      exact ih hnext same
    | done same => exact .some same

end Repeated

/-! ## The result -/

/-- Where a path begins: an absolute path at the global root, any other one at the position. -/
def MarfsConfig.start (config : MarfsConfig) (n : Nat) (dir : List (List Char)) (path : List Char) :
    Location :=
  if path.head? = some '/' then config.settle [] else .within n dir

/-- A relative path leaves MarFS from a working directory, and gets into no other namespace. -/
structure Stale (config : MarfsConfig) (n : Nat) (dir : List (List Char)) (path : List Char) : Prop where
  relative : path.head? ≠ some '/'
  directory : dir ≠ []
  leaves : config.Leaves (.within n dir) (components '/' path)
  stays : ¬config.Enters n (.within n dir) (components '/' path)

def Resolved (config : MarfsConfig) (n : Nat) (dir : List (List Char)) (path : List Char)
    (pos' : MarfsPosition) (subpath : List Char) (depth : Nat) : Prop :=
  ∃ n' dir', config.resolve (config.start n dir path) (components '/' path) = .within n' dir' ∧
    pos'.denotes subpath = some (n', dir') ∧ depth = dir'.length

section Result

variable {mdal : Mdal} {config : MarfsConfig} {n₀ n : Nat} {base consumed dir : List (List Char)}
  {state : TraverseState}

/-- Where the context is not the one of the working directory, the end of the loop denotes the walk. -/
theorem Traversing.denotes (h : Traversing config n₀ base consumed state n dir) (hnil : state.pathelem = [])
    (hfresh : base = [] ∨ config.Enters n₀ (.within n₀ base) consumed ∨
      ¬config.Leaves (.within n₀ base) consumed) : state.pos.denotes state.relpath = some (n, dir) := by
  obtain ⟨names, hnames, hshift, hunshifted⟩ := h.relpath
  rw [hnil, components_nil, List.append_nil] at hnames
  rw [MarfsPosition.denotes, h.walked.ns, hnames]
  by_cases hent : config.Enters n₀ (.within n₀ base) consumed
  · rcases h.walked.entered hent with hctxt | ⟨hctxt, -⟩
    · simp only [hctxt, if_true, hshift (Or.inl hent), Option.map_some]
    · simp only [hctxt, hshift (Or.inl hent), Option.map_some]
  · obtain ⟨rfl, hctxt⟩ := h.walked.stayed hent
    have hdesc : descend base names = some dir := by
      by_cases hleav : config.Leaves (.within n base) consumed
      · obtain rfl := hfresh.resolve_right fun hor => hor.elim hent fun hnot => hnot hleav
        exact hshift (Or.inr hleav)
      · exact hunshifted fun hshifts => hshifts.elim hent hleav
    simp only [hctxt, if_true, hdesc, Option.map_some]

theorem Traversing.stale (h : Traversing config n₀ base consumed state n dir) (hnil : state.pathelem = [])
    (hleav : config.Leaves (.within n₀ base) consumed)
    (hstays : ¬config.Enters n₀ (.within n₀ base) consumed) :
    state.pos.denotes state.relpath = some (n, base ++ dir) := by
  obtain ⟨names, hnames, hshift, -⟩ := h.relpath
  rw [hnil, components_nil, List.append_nil] at hnames
  obtain ⟨rfl, hctxt⟩ := h.walked.stayed hstays
  have hdesc := descend_below base (hshift (Or.inr hleav))
  rw [List.append_nil] at hdesc
  rw [MarfsPosition.denotes, h.walked.ns, hnames]
  simp only [hctxt, if_true, hdesc, Option.map_some]

theorem traverseLoop_denotes (hplain : config.Plain) {fuel depth : Nat} {pos : MarfsPosition}
    {subpath : List Char} (h : Traversing config n base [] state n base)
    (hres : traverseLoop mdal config 0 fuel state = some (.done pos subpath depth)) :
    ∃ n' dir', config.resolve (.within n base) (components '/' state.pathelem) = .within n' dir' ∧
      depth = dir'.length ∧
      (base = [] ∨ config.Enters n (.within n base) (components '/' state.pathelem) ∨
        ¬config.Leaves (.within n base) (components '/' state.pathelem) →
        pos.denotes subpath = some (n', dir')) ∧
      (config.Leaves (.within n base) (components '/' state.pathelem) →
        ¬config.Enters n (.within n base) (components '/' state.pathelem) →
        pos.denotes subpath = some (n', base ++ dir')) := by
  obtain ⟨final, n', dir', hfinal, hnil, rfl, rfl, rfl⟩ := traverseLoop_done hplain h hres
  rw [List.nil_append] at hfinal
  exact ⟨n', dir', hfinal.walked.resolves, hfinal.depth, hfinal.denotes hnil, hfinal.stale hnil⟩

variable {pos : MarfsPosition} {path : List Char}

theorem MarfsPosition.In.ctxt_ne (hin : pos.In n dir) : pos.ctxt ≠ none := by
  rw [hin.ctxt]
  exact Option.some_ne_none _

theorem Traversing.relative (hin : pos.In n dir) (hbelow : config.Below n)
    (hhead : path.head? ≠ some '/') :
    Traversing config n dir [] ⟨pos, path, path, pos.depth, false⟩ n dir where
  walked := ⟨hin.ns, hbelow, rfl, False.elim, fun _ => ⟨rfl, hin.ctxt⟩⟩
  depth := hin.depth
  head := hhead
  relpath := ⟨[], rfl, fun hshift => (hshift.elim id id).elim, fun _ => rfl⟩
  nonNS := nofun

def rootPosition (config : MarfsConfig) (pos : MarfsPosition) : MarfsPosition :=
  if pos.ns ≠ .table config.rootns ∨ pos.depth ≠ 0 then configEstablishposition config else pos

theorem rootPosition_in (hin : pos.In n dir) : (rootPosition config pos).In config.rootns [] := by
  rw [rootPosition]
  split
  · exact ⟨rfl, rfl, rfl⟩
  · next hroot =>
    obtain ⟨hns, hdep⟩ := not_or.1 hroot
    rw [not_not, hin.ns] at hns
    obtain rfl := NsRef.table.inj hns
    rw [not_not, hin.depth] at hdep
    obtain rfl := List.length_eq_zero_iff.1 hdep
    exact hin

theorem configTraverse_relative (hin : pos.In n dir) (hhead : path.head? ≠ some '/') (fuel : Nat) :
    configTraverse mdal config fuel pos path 0 =
      traverseLoop mdal config 0 fuel ⟨pos, path, path, pos.depth, false⟩ := by
  rw [configTraverse, if_neg hin.ctxt_ne, if_neg hhead]

theorem configTraverse_absolute (hin : pos.In n dir) (hhead : path.head? = some '/') (fuel : Nat) :
    configTraverse mdal config fuel pos path 0 =
      match configValidatemnt config none path with
      | none => some .failed
      | some parsepath =>
        if parsepath = [] then some (.done (rootPosition config pos) ['.'] 0)
        else
          traverseLoop mdal config 0 fuel
            ⟨rootPosition config pos, parsepath, parsepath, (rootPosition config pos).depth, false⟩ := by
  rw [configTraverse, if_neg hin.ctxt_ne, if_pos hhead]
  rfl

theorem configTraverse_same (hplain : config.Plain) (hin : pos.In n dir) (hbelow : config.Below n)
    {path' : List Char} (habs : path'.head? = some '/' ↔ path.head? = some '/')
    (hsame : components '/' path' = components '/' path) (fuel : Nat) :
    Option.Rel Traversed.Same (configTraverse mdal config fuel pos path 0)
      (configTraverse mdal config fuel pos path' 0) := by
  by_cases hhead : path.head? = some '/'
  · rw [configTraverse_absolute hin hhead, configTraverse_absolute hin (habs.2 hhead)]
    have hvalid : Option.Rel (Path.Same '/') (configValidatemnt config none path)
        (configValidatemnt config none path') :=
      validatemnt_same hsame.symm fun hnone => absurd rfl hnone
    generalize hleft : configValidatemnt config none path = left at hvalid
    generalize configValidatemnt config none path' = right at hvalid
    cases hvalid with
    | none => exact .some .failed
    | @some rest rest' hrest =>
      have hreach := validatemnt_absolute hplain.mountpoint hleft
      dsimp only
      by_cases hnil : rest = []
      · rw [if_pos hnil, if_pos (hrest.eq_nil.1 hnil)]
        exact .some (.done rfl)
      · rw [if_neg hnil, if_neg fun hnil' => hnil (hrest.eq_nil.2 hnil')]
        exact traverseLoop_same hplain
          (Traversing.relative (rootPosition_in hin) .root hreach.head)
          ⟨rfl, hrest.components, hrest, rfl, rfl⟩
  · have hhead' : path'.head? ≠ some '/' := fun heq => hhead (habs.1 heq)
    rw [configTraverse_relative hin hhead, configTraverse_relative hin hhead']
    exact traverseLoop_same hplain (Traversing.relative hin hbelow hhead)
      ⟨rfl, hsame.symm, ⟨hsame.symm, hhead, hhead'⟩, rfl, rfl⟩

theorem configTraverse_resolved (hplain : config.Plain) (hin : pos.In n dir)
    (hbelow : config.Below n) {fuel depth : Nat} {pos' : MarfsPosition} {subpath : List Char}
    (h : configTraverse mdal config fuel pos path 0 = some (.done pos' subpath depth)) :
    Resolved config n dir path pos' subpath depth ↔ ¬Stale config n dir path := by
  by_cases hhead : path.head? = some '/'
  · refine iff_of_true ?_ fun hstale => hstale.relative hhead
    rw [configTraverse_absolute hin hhead] at h
    split at h
    · cases h
    · next rest hvalid =>
      have hreach := validatemnt_absolute hplain.mountpoint hvalid
      obtain ⟨names, hnames, hresol, -⟩ := hreach.resolves
      rw [Resolved, MarfsConfig.start, if_pos hhead, hnames, resolve_append, hresol]
      by_cases hnil : rest = []
      · rw [if_pos hnil] at h
        obtain ⟨rfl, rfl, rfl⟩ := Traversed.done.inj (Option.some.inj h)
        have hroot : (rootPosition config pos).In config.rootns [] := rootPosition_in hin
        refine ⟨config.rootns, [], ?_, ?_, rfl⟩
        · rw [hnil, components_nil, resolve_nil]
        · rw [MarfsPosition.denotes, hroot.ns]
          simp only [hroot.ctxt, if_true]
          rfl
      · rw [if_neg hnil] at h
        obtain ⟨n', dir', hwalk, hdep, hdenotes, -⟩ := traverseLoop_denotes hplain
          (Traversing.relative (rootPosition_in hin) .root hreach.head) h
        exact ⟨n', dir', hwalk, hdenotes (Or.inl rfl), hdep⟩
  · rw [configTraverse_relative hin hhead] at h
    obtain ⟨n', dir', hwalk, hdep, hdenotes, hstale⟩ :=
      traverseLoop_denotes hplain (Traversing.relative hin hbelow hhead) h
    rw [Resolved, MarfsConfig.start, if_neg hhead]
    constructor
    · rintro ⟨n'', dir'', hwalk', hdenotes', -⟩ ⟨-, hdir, hleav, hstays⟩
      obtain ⟨rfl, rfl⟩ := Location.within.inj (hwalk.symm.trans hwalk')
      rw [hstale hleav hstays] at hdenotes'
      have heq := (Prod.mk.inj (Option.some.inj hdenotes')).2
      exact hdir (List.append_left_eq_self.1 heq)
    · intro hnot
      refine ⟨n', dir', hwalk, hdenotes ?_, hdep⟩
      by_contra hcontra
      obtain ⟨hdir, hor⟩ := not_or.1 hcontra
      obtain ⟨hstays, hleav⟩ := not_or.1 hor
      exact hnot ⟨hhead, hdir, not_not.1 hleav, hstays⟩

end Result

/-- Traversal without links follows resolution, however often separators are repeated, exactly when no
context is left over. -/
theorem configTraverse_follows {mdal : Mdal} {config : MarfsConfig} (hplain : config.Plain) {n : Nat}
    (hbelow : config.Below n) {dir : List (List Char)} {pos : MarfsPosition} (hin : pos.In n dir)
    {path : List Char} {fuel depth : Nat} {pos' : MarfsPosition} {subpath : List Char}
    (h : configTraverse mdal config fuel pos path 0 = some (.done pos' subpath depth)) :
    (Resolved config n dir path pos' subpath depth ∧
      ∀ path', (path'.head? = some '/' ↔ path.head? = some '/') →
        components '/' path' = components '/' path →
        ∃ subpath', configTraverse mdal config fuel pos path' 0 = some (.done pos' subpath' depth) ∧
          components '/' subpath' = components '/' subpath) ↔
      ¬Stale config n dir path := by
  refine Iff.trans ⟨And.left, fun hresolved => ⟨hresolved, fun path' habs hsame => ?_⟩⟩
    (configTraverse_resolved hplain hin hbelow h)
  have hrel : Option.Rel Traversed.Same (configTraverse mdal config fuel pos path 0)
      (configTraverse mdal config fuel pos path' 0) :=
    configTraverse_same hplain hin hbelow habs hsame fuel
  rw [h] at hrel
  generalize configTraverse mdal config fuel pos path' 0 = right at hrel
  cases hrel with
  | some hrel =>
    cases hrel with
    | @done _ _ subpath' _ heq => exact ⟨subpath', rfl, heq.symm⟩

/-! ## A sample config -/

def samplePlain : MarfsConfig where
  mountpoint := "/m/r".toList
  rootns := 0
  ns
    | 0 => ⟨"r|/.".toList, 0, 0, 0, 0, 0, none, [("a".toList, 1)], none, none⟩
    | 1 => ⟨"r|/a".toList, 0, 0, 0, 0, 0, some 0, [], none, none⟩
    | _ => ⟨"r|/.".toList, 0, 0, 0, 0, 0, none, [], none, none⟩

theorem samplePlain_plain : samplePlain.Plain where
  source
    | 0 | 1 | _ + 2 => rfl
  child := by
    rintro (_ | _ | n) node hnode <;> simp [samplePlain] at hnode
    subst hnode
    rfl
  ghost
    | 0, hghost | 1, hghost | _ + 2, hghost => absurd rfl hghost
  name := by
    rintro (_ | _ | n) node hnode <;> simp [samplePlain] at hnode
    subst hnode
    decide
  linked := by
    rintro (_ | _ | n) node hnode <;> simp [samplePlain] at hnode
    subst hnode
    exact ⟨['r'], [], by decide, by decide, Or.inl rfl, rfl⟩
  acyclic := by
    refine ⟨id, ?_⟩
    rintro (_ | _ | n) parent hpar <;> simp [samplePlain] at hpar
    subst hpar
    exact Nat.one_pos
  ghtarget
    | 0 | 1 | _ + 2 => rfl
  root := rfl
  mountpoint := Or.inr rfl

/-- No name is rejected, and nothing is a link. -/
def sampleMdal : Mdal := ⟨fun _ _ => false, fun _ _ => .other⟩

def sampleWorkdir : MarfsPosition := ⟨.table 0, 1, some (.plain 0 [['d']])⟩

/-- Out of MarFS and back in: the context is still that of the working directory. -/
theorem samplePlain_stale :
    configTraverse sampleMdal samplePlain 20 sampleWorkdir "../../r/x".toList 0 =
        some (.done ⟨.table 0, 0, some (.plain 0 [['d']])⟩ ['x'] 1) ∧
      ¬Resolved samplePlain 0 [['d']] "../../r/x".toList ⟨.table 0, 0, some (.plain 0 [['d']])⟩
        ['x'] 1 := by
  refine ⟨by decide, ?_⟩
  rintro ⟨n', dir', hresolve, hdenotes, -⟩
  have hresolved : Location.within 0 [['x']] = .within n' dir' := hresolve
  have hdenoted : some (0, [['d'], ['x']]) = some (n', dir') := hdenotes
  obtain ⟨rfl, rfl⟩ := Location.within.inj hresolved
  cases hdenoted

/-- By way of the subspace, the context is a new one. -/
theorem samplePlain_follows :
    (Resolved samplePlain 0 [['d']] "../a/../../r/x".toList ⟨.table 0, 0, some (.plain 0 [])⟩ ['x'] 1 ∧
      ∀ path', (path'.head? = some '/' ↔ "../a/../../r/x".toList.head? = some '/') →
        components '/' path' = components '/' "../a/../../r/x".toList →
        ∃ subpath', configTraverse sampleMdal samplePlain 20 sampleWorkdir path' 0 =
          some (.done ⟨.table 0, 0, some (.plain 0 [])⟩ subpath' 1) ∧
          components '/' subpath' = components '/' ['x']) ↔
      ¬Stale samplePlain 0 [['d']] "../a/../../r/x".toList :=
  configTraverse_follows samplePlain_plain .root ⟨rfl, rfl, rfl⟩ (by decide)

end Marfs.Config
