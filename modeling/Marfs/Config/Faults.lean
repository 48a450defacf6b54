import Marfs.Config.Ghost
import Marfs.Config.Loop
import Mathlib.Data.Stream.Defs

/-!
# Failed shifts

Here `config_enterns` may fail: it allocates memory and calls the MDAL, and a failure of either abandons
the position.  What fails is given from outside, call by call.  The loop of `config_shiftns` stops when a
descent fails.  It does not look at the failure of an ascent, and goes on with the position that is no
longer there (`failures_reported_iff`).
-/

namespace Marfs.Config

open Marfs.Path

/-! ## Failures of one call -/

/-- What fails in one call of `config_enterns`: the MDAL's `setnamespace`, a fresh context, and the
allocation of a ghost copy, of its ID string and of its subspaces. -/
structure Faults where
  setnamespace : Bool
  fortify : Bool
  allocate : Bool
  idstr : Bool
  subspaces : Bool
  deriving DecidableEq, Repr

/-- Nothing fails. -/
def Faults.none : Faults := ⟨false, false, false, false, false⟩

def Faults.strike (faults : Faults) (config : MarfsConfig) (pos : MarfsPosition) (nextns : Option Nat)
    (ascending updatectxt : Bool) : Bool :=
  let curns := config.deref pos.ns
  let fresh := updatectxt && faults.fortify
  match curns.ghsource with
  | .none =>
    match nextns with
    | .none => false
    | some nextns =>
      match (config.ns nextns).ghtarget with
      | .none =>
        if curns.prepo = (config.ns nextns).prepo ∧ updatectxt then faults.setnamespace else fresh
      | some ghtarget =>
        faults.allocate || (faults.subspaces && !(config.nonGhosts ghtarget).isEmpty) || fresh
  | some ghsource =>
    if ascending ∧ nextns = (config.ns ghsource).ghtarget.bind fun ghtarget =>
        (config.ns ghtarget).pnamespace then fresh
    else
      match nextns with
      | .none => false
      | some nextns =>
        faults.idstr || (faults.subspaces && !(config.nonGhosts nextns).isEmpty) || fresh

def configEnternsIn (config : MarfsConfig) (faults : Faults) (pos : MarfsPosition)
    (nextns : Option Nat) (relpath : List Char) (ascending updatectxt : Bool) : Entered :=
  if faults.strike config pos nextns ascending updatectxt then .failed
  else configEnterns config pos nextns relpath ascending updatectxt

/-! ## The loops -/

/-- The variables of the loop in `config_shiftns`, with what will fail in the calls to come. -/
structure ShiftState where
  env : Stream' Faults
  pos : MarfsPosition
  pathelem : List Char

def shiftStepIn (mdal : Mdal) (config : MarfsConfig) (state : ShiftState) :
    LoopStep ShiftState (Stream' Faults × Shifted) :=
  let env := state.env
  let pos := state.pos
  let pathelem := state.pathelem
  if pathelem = [] then .done (env, .shifted pos pathelem)
  else if firstElem '/' pathelem = ['.', '.'] then
    match configEnternsIn config env.head pos (config.deref pos.ns).pnamespace ['.', '.'] true true with
    | .entered pos => .next ⟨env.tail, pos, nextElem '/' pathelem⟩
    | .exits =>
      match configValidatemnt config (some pos.ns) (nextElem '/' pathelem) with
      | none => .done (env.tail, .failed)
      | some parsepath => .next ⟨env.tail, pos, skipSep '/' parsepath⟩
    -- only an exit is looked for: the namespace of the position is read
    | .failed => .done (env.tail, .crashed)
  else if firstElem '/' pathelem = ['.'] then .next ⟨env, pos, nextElem '/' pathelem⟩
  else
    match (config.deref pos.ns).subnodes.lookup (firstElem '/' pathelem) with
    | none =>
      if mdal.pathfilter (config.deref pos.ns).prepo (firstElem '/' pathelem) then .done (env, .failed)
      else .done (env, .shifted pos pathelem)
    | some subspace =>
      match configEnternsIn config env.head pos (some subspace) (firstElem '/' pathelem) false
          (nextElem '/' pathelem ≠ []) with
      | .entered pos => .next ⟨env.tail, pos, nextElem '/' pathelem⟩
      | _ => .done (env.tail, .failed)

def shiftLoopIn (mdal : Mdal) (config : MarfsConfig) : Nat → ShiftState → Stream' Faults × Shifted
  | 0, state => (state.env, .shifted state.pos state.pathelem)
  | fuel + 1, state =>
    match shiftStepIn mdal config state with
    | .next state => shiftLoopIn mdal config fuel state
    | .done result => result

def configShiftnsIn (mdal : Mdal) (config : MarfsConfig) (env : Stream' Faults) (pos : MarfsPosition)
    (subpath : List Char) : Stream' Faults × Shifted :=
  shiftLoopIn mdal config subpath.length ⟨env, pos, subpath⟩

/-- A pass that makes no call of `config_shiftns`. -/
def LoopStep.withEnv (env : Stream' Faults) :
    LoopStep TraverseState Traversed → LoopStep (Stream' Faults × TraverseState) Traversed
  | .next state => .next (env, state)
  | .done result => .done result

def traverseStepIn (mdal : Mdal) (config : MarfsConfig) (linkchk : Nat)
    (current : Stream' Faults × TraverseState) : LoopStep (Stream' Faults × TraverseState) Traversed :=
  let (env, state) := current
  let pathelem := state.pathelem
  if pathelem = [] then .done (.done state.pos state.relpath state.depth)
  else if firstElem '/' pathelem = ['.', '.'] then
    if state.depth = 0 then
      match configShiftnsIn mdal config env state.pos pathelem with
      | (env, .shifted pos parsepath) =>
        if parsepath = pathelem then .done .failed else .next (env, shiftState state pos parsepath)
      | (_, .failed) => .done .failed
      | (_, .crashed) => .done .crashed
    else
      .next (env,
        { state with pathelem := nextElem '/' pathelem, depth := state.depth - 1, nonNS := false })
  else if firstElem '/' pathelem = ['.'] then
    .next (env, { state with pathelem := nextElem '/' pathelem, nonNS := false })
  else if state.depth = 0 ∧ state.nonNS = false then
    match configShiftnsIn mdal config env state.pos pathelem with
    | (env, .shifted pos shiftres) =>
      if shiftres ≠ pathelem then .next (env, shiftState state pos shiftres)
      else (enterElem mdal config linkchk { state with pos := pos }).withEnv env
    | (_, .failed) => .done .failed
    | (_, .crashed) => .done .crashed
  else (enterElem mdal config linkchk state).withEnv env

def configTraverseIn (mdal : Mdal) (config : MarfsConfig) (fuel : Nat) (env : Stream' Faults)
    (pos : MarfsPosition) (subpath : List Char) (linkchk : Nat) : Option Traversed :=
  match traverseEntry config pos subpath with
  | .done result => some result
  | .next state => LoopStep.iterate (traverseStepIn mdal config linkchk) fuel (env, state)

/-! ### Without failures -/

section Calm

variable {mdal : Mdal} {config : MarfsConfig}

/-- The environment in which nothing fails. -/
def calm : Stream' Faults := Stream'.const Faults.none

theorem strike_none (pos : MarfsPosition) (nextns : Option Nat) (ascending updatectxt : Bool) :
    Faults.none.strike config pos nextns ascending updatectxt = false := by
  unfold Faults.strike Faults.none
  dsimp only
  repeat' split
  all_goals simp

theorem configEnternsIn_calm (pos : MarfsPosition) (nextns : Option Nat) (relpath : List Char)
    (ascending updatectxt : Bool) :
    configEnternsIn config calm.head pos nextns relpath ascending updatectxt =
      configEnterns config pos nextns relpath ascending updatectxt := by
  have hhead : calm.head = Faults.none := rfl
  rw [configEnternsIn, hhead, strike_none]
  exact if_neg Bool.false_ne_true

theorem shiftStepIn_calm (pos : MarfsPosition) (pathelem : List Char) :
    shiftStepIn mdal config ⟨calm, pos, pathelem⟩ =
      match shiftStep mdal config pos pathelem with
      | .next (pos, pathelem) => .next ⟨calm, pos, pathelem⟩
      | .done result => .done (calm, result) := by
  have htail : calm.tail = calm := rfl
  rw [shiftStepIn, shiftStep]
  dsimp only
  rw [configEnternsIn_calm, htail]
  by_cases hnil : pathelem = []
  · rw [if_pos hnil, if_pos hnil]
  rw [if_neg hnil, if_neg hnil]
  by_cases hup : firstElem '/' pathelem = ['.', '.']
  · rw [if_pos hup, if_pos hup]
    cases configEnterns config pos (config.deref pos.ns).pnamespace ['.', '.'] true true with
    | entered pos => rfl
    | exits =>
      dsimp only
      cases configValidatemnt config (some pos.ns) (nextElem '/' pathelem) <;> rfl
    | failed => rfl
  rw [if_neg hup, if_neg hup]
  by_cases hhere : firstElem '/' pathelem = ['.']
  · rw [if_pos hhere, if_pos hhere]
  rw [if_neg hhere, if_neg hhere]
  cases (config.deref pos.ns).subnodes.lookup (firstElem '/' pathelem) with
  | none =>
    dsimp only
    split <;> rfl
  | some subspace =>
    dsimp only
    rw [configEnternsIn_calm]
    cases configEnterns config pos (some subspace) (firstElem '/' pathelem) false
      (decide (nextElem '/' pathelem ≠ [])) <;> rfl

theorem shiftLoopIn_calm (fuel : Nat) (pos : MarfsPosition) (pathelem : List Char) :
    shiftLoopIn mdal config fuel ⟨calm, pos, pathelem⟩ =
      (calm, shiftLoop mdal config fuel pos pathelem) := by
  induction fuel generalizing pos pathelem with
  | zero => rfl
  | succ fuel ih =>
    rw [shiftLoopIn, shiftLoop, shiftStepIn_calm]
    cases shiftStep mdal config pos pathelem with
    | next state => exact ih state.1 state.2
    | done result => rfl

theorem traverseStepIn_calm {linkchk : Nat} (state : TraverseState) :
    traverseStepIn mdal config linkchk (calm, state) =
      (traverseStep mdal config linkchk state).withEnv calm := by
  have hshift : ∀ pos subpath, configShiftnsIn mdal config calm pos subpath =
      (calm, configShiftns mdal config pos subpath) :=
    fun pos subpath => shiftLoopIn_calm subpath.length pos subpath
  rw [traverseStepIn, traverseStep, hshift]
  by_cases hnil : state.pathelem = []
  · rw [if_pos hnil, if_pos hnil, LoopStep.withEnv]
  rw [if_neg hnil, if_neg hnil]
  by_cases hup : firstElem '/' state.pathelem = ['.', '.']
  · rw [if_pos hup, if_pos hup]
    by_cases hdep : state.depth = 0
    · rw [if_pos hdep, if_pos hdep]
      cases configShiftns mdal config state.pos state.pathelem with
      | shifted pos parsepath =>
        dsimp only
        split <;> rfl
      | failed => rfl
      | crashed => rfl
    · rw [if_neg hdep, if_neg hdep, LoopStep.withEnv]
  rw [if_neg hup, if_neg hup]
  by_cases hhere : firstElem '/' state.pathelem = ['.']
  · rw [if_pos hhere, if_pos hhere, LoopStep.withEnv]
  rw [if_neg hhere, if_neg hhere]
  by_cases hns : state.depth = 0 ∧ state.nonNS = false
  · rw [if_pos hns, if_pos hns]
    cases configShiftns mdal config state.pos state.pathelem with
    | shifted pos shiftres =>
      dsimp only
      split <;> rfl
    | failed => rfl
    | crashed => rfl
  · rw [if_neg hns, if_neg hns]

/-- Where nothing fails, the traversal is the one without failures. -/
theorem configTraverseIn_calm (fuel : Nat) (pos : MarfsPosition) (subpath : List Char) (linkchk : Nat) :
    configTraverseIn mdal config fuel calm pos subpath linkchk =
      configTraverse mdal config fuel pos subpath linkchk := by
  have hloop : ∀ fuel state, LoopStep.iterate (traverseStepIn mdal config linkchk) fuel (calm, state) =
      traverseLoop mdal config linkchk fuel state := by
    intro fuel
    induction fuel with
    | zero => exact fun _ => rfl
    | succ fuel ih =>
      intro state
      rw [LoopStep.iterate, traverseLoop, traverseStepIn_calm]
      cases traverseStep mdal config linkchk state with
      | next state => exact ih state
      | done result => rfl
  rw [configTraverseIn, configTraverse_eq_entry]
  cases traverseEntry config pos subpath with
  | next state => exact hloop fuel state
  | done result => rfl

end Calm

/-! ## What becomes of a failure -/

def ShiftState.Fails (config : MarfsConfig) (state : ShiftState) : (ascending : Bool) → Prop
  | true =>
    state.pathelem ≠ [] ∧ firstElem '/' state.pathelem = ['.', '.'] ∧
      configEnternsIn config state.env.head state.pos (config.deref state.pos.ns).pnamespace ['.', '.']
        true true = .failed
  | false =>
    state.pathelem ≠ [] ∧ firstElem '/' state.pathelem ≠ ['.', '.'] ∧
      firstElem '/' state.pathelem ≠ ['.'] ∧
      ∃ subspace,
        (config.deref state.pos.ns).subnodes.lookup (firstElem '/' state.pathelem) = some subspace ∧
        configEnternsIn config state.env.head state.pos (some subspace) (firstElem '/' state.pathelem)
          false (nextElem '/' state.pathelem ≠ []) = .failed

section Shift

variable {mdal : Mdal} {config : MarfsConfig} {state state' : ShiftState} {result : Shifted}
  {env : Stream' Faults}

theorem shiftStepIn_of_ascent (h : state.Fails config true) :
    shiftStepIn mdal config state = .done (state.env.tail, .crashed) := by
  obtain ⟨hne, hup, hfails⟩ := h
  rw [shiftStepIn]
  rw [if_neg hne, if_pos hup, hfails]

theorem shiftStepIn_of_descent (h : state.Fails config false) :
    shiftStepIn mdal config state = .done (state.env.tail, .failed) := by
  obtain ⟨hne, hup, hhere, subspace, hlook, hfails⟩ := h
  rw [shiftStepIn]
  rw [if_neg hne, if_neg hup, if_neg hhere, hlook]
  dsimp only
  rw [hfails]

theorem shiftStepIn_length_lt (h : shiftStepIn mdal config state = .next state') :
    state'.pathelem.length < state.pathelem.length := by
  rw [shiftStepIn] at h
  by_cases hnil : state.pathelem = []
  · rw [if_pos hnil] at h
    cases h
  rw [if_neg hnil] at h
  have hlt := nextElem_length_lt_of_ne_nil '/' hnil
  have hsuf : state'.pathelem <:+ nextElem '/' state.pathelem := by
    by_cases hup : firstElem '/' state.pathelem = ['.', '.']
    · rw [if_pos hup] at h
      split at h
      · exact LoopStep.next.inj h ▸ List.suffix_rfl
      · split at h
        · cases h
        · next hvalid =>
          exact LoopStep.next.inj h ▸ (List.dropWhile_suffix _).trans (validatemnt_suffix hvalid)
      · cases h
    rw [if_neg hup] at h
    by_cases hhere : firstElem '/' state.pathelem = ['.']
    · rw [if_pos hhere] at h
      exact LoopStep.next.inj h ▸ List.suffix_rfl
    rw [if_neg hhere] at h
    split at h
    · split at h <;> cases h
    · split at h
      · exact LoopStep.next.inj h ▸ List.suffix_rfl
      · cases h
  exact hsuf.length_le.trans_lt hlt

theorem shiftLoopIn_ends {fuel : Nat} (hfuel : state.pathelem.length ≤ fuel) :
    LoopStep.Ends (shiftStepIn mdal config) state (shiftLoopIn mdal config fuel state) := by
  induction fuel generalizing state with
  | zero =>
    have hnil : state.pathelem = [] := List.eq_nil_of_length_eq_zero (Nat.le_zero.1 hfuel)
    have hdone : shiftStepIn mdal config state =
        .done (state.env, .shifted state.pos state.pathelem) := by
      rw [shiftStepIn]
      exact if_pos hnil
    exact (LoopStep.Ends.of_done hdone).2 rfl
  | succ fuel ih =>
    rw [shiftLoopIn]
    cases hstep : shiftStepIn mdal config state with
    | next state' =>
      have hlt := shiftStepIn_length_lt hstep
      exact (LoopStep.Ends.of_next hstep).2 (ih (by omega))
    | done result => exact (LoopStep.Ends.of_done hstep).2 rfl

theorem configShiftnsIn_of_done {pos : MarfsPosition} {subpath : List Char}
    (hreach : LoopStep.Reaches (shiftStepIn mdal config) ⟨env, pos, subpath⟩ state)
    {ended : Stream' Faults × Shifted} (hdone : shiftStepIn mdal config state = .done ended) :
    configShiftnsIn mdal config env pos subpath = ended :=
  (shiftLoopIn_ends le_rfl).unique ⟨state, hreach, hdone⟩

end Shift

def TraverseReaches (mdal : Mdal) (config : MarfsConfig) (env : Stream' Faults) (pos : MarfsPosition)
    (subpath : List Char) (linkchk : Nat) (current : Stream' Faults × TraverseState) : Prop :=
  ∃ state, traverseEntry config pos subpath = .next state ∧
    LoopStep.Reaches (traverseStepIn mdal config linkchk) (env, state) current

def TraverseState.Shifts (state : TraverseState) : Prop :=
  state.pathelem ≠ [] ∧ state.depth = 0 ∧
    (firstElem '/' state.pathelem = ['.', '.'] ∨
      (firstElem '/' state.pathelem ≠ ['.'] ∧ state.nonNS = false))

/-- In the next pass of the loop in `config_traverse`, `config_shiftns` ascends, or descends, and
`config_enterns` fails. -/
def TraverseFails (mdal : Mdal) (config : MarfsConfig) (current : Stream' Faults × TraverseState)
    (ascending : Bool) : Prop :=
  current.2.Shifts ∧ ∃ state,
    LoopStep.Reaches (shiftStepIn mdal config) ⟨current.1, current.2.pos, current.2.pathelem⟩ state ∧
      state.Fails config ascending

section Traverse

variable {mdal : Mdal} {config : MarfsConfig} {linkchk : Nat} {current : Stream' Faults × TraverseState}

theorem traverseStepIn_of_shifts (h : current.2.Shifts) {result : Shifted}
    (hres : (configShiftnsIn mdal config current.1 current.2.pos current.2.pathelem).2 = result) :
    (result = .failed → traverseStepIn mdal config linkchk current = .done .failed) ∧
      (result = .crashed → traverseStepIn mdal config linkchk current = .done .crashed) := by
  obtain ⟨env, state⟩ := current
  obtain ⟨hne, hdep, hcall⟩ := h
  rw [traverseStepIn]
  dsimp only at hne hdep hcall hres ⊢
  cases hshift : configShiftnsIn mdal config env state.pos state.pathelem with
  | mk env' shifted =>
  rw [hshift] at hres
  obtain rfl : shifted = result := hres
  rw [if_neg hne]
  by_cases hup : firstElem '/' state.pathelem = ['.', '.']
  · rw [if_pos hup, if_pos hdep]
    constructor <;> rintro rfl <;> rfl
  · obtain ⟨hhere, hnonNS⟩ := hcall.resolve_left hup
    rw [if_neg hup, if_neg hhere, if_pos ⟨hdep, hnonNS⟩]
    constructor <;> rintro rfl <;> rfl

theorem traverseStepIn_of_ascent (h : TraverseFails mdal config current true) :
    traverseStepIn mdal config linkchk current = .done .crashed := by
  obtain ⟨hshift, state, hreach, hfails⟩ := h
  refine (traverseStepIn_of_shifts hshift rfl).2 ?_
  rw [configShiftnsIn_of_done hreach (shiftStepIn_of_ascent hfails)]

theorem traverseStepIn_of_descent (h : TraverseFails mdal config current false) :
    traverseStepIn mdal config linkchk current = .done .failed := by
  obtain ⟨hshift, state, hreach, hfails⟩ := h
  refine (traverseStepIn_of_shifts hshift rfl).1 ?_
  rw [configShiftnsIn_of_done hreach (shiftStepIn_of_descent hfails)]

theorem configTraverseIn_iff {env : Stream' Faults} {pos : MarfsPosition} {subpath : List Char}
    (hreach : TraverseReaches mdal config env pos subpath linkchk current) {result : Traversed} :
    (∃ fuel, configTraverseIn mdal config fuel env pos subpath linkchk = some result) ↔
      LoopStep.Ends (traverseStepIn mdal config linkchk) current result := by
  obtain ⟨state, hent, hreach⟩ := hreach
  unfold configTraverseIn
  rw [hent]
  dsimp only
  rw [LoopStep.iterate_iff_ends, LoopStep.Ends.of_reaches hreach]

end Traverse

/-- All failures of `config_enterns` are reported, by `config_shiftns` and by `config_traverse`, if and
only if none is the failure of an ascent. -/
theorem failures_reported_iff (mdal : Mdal) (config : MarfsConfig) (env : Stream' Faults)
    (pos : MarfsPosition) (subpath : List Char) (linkchk : Nat) :
    ((∀ state ascending, LoopStep.Reaches (shiftStepIn mdal config) ⟨env, pos, subpath⟩ state →
        state.Fails config ascending → (configShiftnsIn mdal config env pos subpath).2 = .failed) ↔
      ∀ state, LoopStep.Reaches (shiftStepIn mdal config) ⟨env, pos, subpath⟩ state →
        ¬state.Fails config true) ∧
    ((∀ current ascending, TraverseReaches mdal config env pos subpath linkchk current →
        TraverseFails mdal config current ascending →
          ∃ fuel, configTraverseIn mdal config fuel env pos subpath linkchk = some .failed) ↔
      ∀ current, TraverseReaches mdal config env pos subpath linkchk current →
        ¬TraverseFails mdal config current true) := by
  refine ⟨⟨fun hreports state hreach hfails => ?_, fun hno state ascending hreach hfails => ?_⟩,
    fun hreports current hreach hfails => ?_, fun hno current ascending hreach hfails => ?_⟩
  · have hfailed := hreports state true hreach hfails
    rw [configShiftnsIn_of_done hreach (shiftStepIn_of_ascent hfails)] at hfailed
    cases hfailed
  · cases ascending with
    | true => exact absurd hfails (hno state hreach)
    | false => rw [configShiftnsIn_of_done hreach (shiftStepIn_of_descent hfails)]
  · have hfailed := hreports current true hreach hfails
    rw [configTraverseIn_iff hreach, LoopStep.Ends.of_done (traverseStepIn_of_ascent hfails)] at hfailed
    cases hfailed
  · cases ascending with
    | true => exact absurd hfails (hno current hreach)
    | false =>
      rw [configTraverseIn_iff hreach, LoopStep.Ends.of_done (traverseStepIn_of_descent hfails)]

/-- The MDAL does not let the context of a subspace go up to the root: the position is abandoned, and read
all the same. -/
theorem failed_ascent_unreported : ∃ env : Stream' Faults,
    let pos : MarfsPosition := ⟨.table 1, 0, some (.plain 1 [])⟩
    configEnternsIn sampleTree env.head pos (some 0) ['.', '.'] true true = .failed ∧
      (configShiftnsIn ⟨fun _ _ => false, fun _ _ => .other⟩ sampleTree env pos ['.', '.']).2 = .crashed ∧
      configTraverseIn ⟨fun _ _ => false, fun _ _ => .other⟩ sampleTree 1 env pos ['.', '.'] 0 =
        some .crashed := by
  refine ⟨Stream'.const { Faults.none with setnamespace := true }, ?_⟩
  dsimp only
  refine ⟨?_, ?_, ?_⟩ <;> decide +kernel

end Marfs.Config
