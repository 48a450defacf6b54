import Marfs.Config.Traverse

/-!
# What a pass can do

The loops of `config_shiftns` and `config_traverse` go on in a few ways.  Each is stated once, with what
the code found before it went on so.
-/

namespace Marfs.Config

open Marfs.Path

theorem here_ne_up {name : List Char} (hhere : name = ['.']) : name ≠ ['.', '.'] := by
  rw [hhere]
  exact nofun

/-! ## Shifting -/

section Shift

variable {mdal : Mdal} {config : MarfsConfig} {pos pos' : MarfsPosition} {path path' : List Char}

inductive ShiftPass (config : MarfsConfig) (pos : MarfsPosition) (path : List Char) :
    MarfsPosition → List Char → Prop
  | up {pos' : MarfsPosition} (hup : firstElem '/' path = ['.', '.'])
    (hentered : configEnterns config pos (config.deref pos.ns).pnamespace ['.', '.'] true true =
      .entered pos') : ShiftPass config pos path pos' (nextElem '/' path)
  | back {parsepath : List Char} (hup : firstElem '/' path = ['.', '.'])
    (hexits : configEnterns config pos (config.deref pos.ns).pnamespace ['.', '.'] true true = .exits)
    (hvalid : configValidatemnt config (some pos.ns) (nextElem '/' path) = some parsepath) :
    ShiftPass config pos path pos (skipSep '/' parsepath)
  | here (hhere : firstElem '/' path = ['.']) : ShiftPass config pos path pos (nextElem '/' path)
  | down {pos' : MarfsPosition} {subspace : Nat} (hup : firstElem '/' path ≠ ['.', '.'])
    (hhere : firstElem '/' path ≠ ['.'])
    (hlookup : (config.deref pos.ns).subnodes.lookup (firstElem '/' path) = some subspace)
    (hentered : configEnterns config pos (some subspace) (firstElem '/' path) false
      (nextElem '/' path ≠ []) = .entered pos') : ShiftPass config pos path pos' (nextElem '/' path)

theorem shiftStep_pass (h : shiftStep mdal config pos path = .next (pos', path')) :
    path ≠ [] ∧ ShiftPass config pos path pos' path' := by
  rw [shiftStep] at h
  by_cases hnil : path = []
  · rw [if_pos hnil] at h
    cases h
  refine ⟨hnil, ?_⟩
  rw [if_neg hnil] at h
  by_cases hup : firstElem '/' path = ['.', '.']
  · rw [if_pos hup] at h
    split at h
    · next hent =>
      obtain ⟨rfl, rfl⟩ := Prod.mk.inj (LoopStep.next.inj h)
      exact .up hup hent
    · next hexits =>
      split at h
      · cases h
      · next hvalid =>
        obtain ⟨rfl, rfl⟩ := Prod.mk.inj (LoopStep.next.inj h)
        exact .back hup hexits hvalid
    · cases h
  rw [if_neg hup] at h
  by_cases hhere : firstElem '/' path = ['.']
  · rw [if_pos hhere] at h
    obtain ⟨rfl, rfl⟩ := Prod.mk.inj (LoopStep.next.inj h)
    exact .here hhere
  rw [if_neg hhere] at h
  split at h
  · split at h <;> cases h
  · next hlook =>
    split at h
    · next hent =>
      obtain ⟨rfl, rfl⟩ := Prod.mk.inj (LoopStep.next.inj h)
      exact .down hup hhere hlook hent
    · cases h

/-- Where the loop stops with a position, the text has ended or begins with a name that is no subspace
and that the MDAL does not reject. -/
theorem shiftStep_stops (h : shiftStep mdal config pos path = .done (.shifted pos' path')) :
    pos' = pos ∧ path' = path ∧ (path = [] ∨ firstElem '/' path ≠ ['.', '.'] ∧ firstElem '/' path ≠ ['.'] ∧
      (config.deref pos.ns).subnodes.lookup (firstElem '/' path) = none ∧
      mdal.pathfilter (config.deref pos.ns).prepo (firstElem '/' path) ≠ true) := by
  rw [shiftStep] at h
  by_cases hnil : path = []
  · rw [if_pos hnil] at h
    obtain ⟨rfl, rfl⟩ := Shifted.shifted.inj (LoopStep.done.inj h)
    exact ⟨rfl, rfl, Or.inl hnil⟩
  rw [if_neg hnil] at h
  by_cases hup : firstElem '/' path = ['.', '.']
  · rw [if_pos hup] at h
    split at h
    · cases h
    · split at h <;> cases h
    · cases h
  rw [if_neg hup] at h
  by_cases hhere : firstElem '/' path = ['.']
  · rw [if_pos hhere] at h
    cases h
  rw [if_neg hhere] at h
  split at h
  · next hlook =>
    split at h
    · cases h
    · next hfilt =>
      obtain ⟨rfl, rfl⟩ := Shifted.shifted.inj (LoopStep.done.inj h)
      exact ⟨rfl, rfl, Or.inr ⟨hup, hhere, hlook, hfilt⟩⟩
  · split at h <;> cases h

theorem ShiftPass.head (h : ShiftPass config pos path pos' path') : path'.head? ≠ some '/' := by
  cases h with
  | up hup hent => exact nextElem_head path
  | back hup hexits hvalid => exact skipSep_head _
  | here hhere => exact nextElem_head path
  | down hup hhere hlook hent => exact nextElem_head path

theorem ShiftPass.suffix (h : ShiftPass config pos path pos' path') : path' <:+ nextElem '/' path := by
  cases h with
  | up hup hent => exact List.suffix_rfl
  | back hup hexits hvalid => exact (List.dropWhile_suffix _).trans (validatemnt_suffix hvalid)
  | here hhere => exact List.suffix_rfl
  | down hup hhere hlook hent => exact List.suffix_rfl

end Shift

/-! ## Traversing -/

def enterPos (mdal : Mdal) (config : MarfsConfig) (state : TraverseState) : Option MarfsPosition :=
  let pathelem := state.pathelem
  if pathelem = [] ∨ firstElem '/' pathelem = ['.', '.'] ∨ firstElem '/' pathelem = ['.'] then none
  else if state.depth = 0 ∧ state.nonNS = false then
    match configShiftns mdal config state.pos pathelem with
    | .shifted pos shiftres => if shiftres = pathelem then some pos else none
    | _ => none
  else some state.pos

section Traverse

variable {mdal : Mdal} {config : MarfsConfig} {linkchk : Nat} {state state' : TraverseState}
  {pos : MarfsPosition}

theorem enterPos_cases (h : enterPos mdal config state = some pos) :
    state.pathelem ≠ [] ∧ firstElem '/' state.pathelem ≠ ['.', '.'] ∧ firstElem '/' state.pathelem ≠ ['.'] ∧
      (configShiftns mdal config state.pos state.pathelem = .shifted pos state.pathelem ∧ state.depth = 0 ∨
        pos = state.pos ∧ (state.depth = 0 → state.nonNS = true)) := by
  unfold enterPos at h
  dsimp only at h
  split at h
  · cases h
  · next helem =>
    obtain ⟨hnil, helem⟩ := not_or.1 helem
    obtain ⟨hup, hhere⟩ := not_or.1 helem
    refine ⟨hnil, hup, hhere, ?_⟩
    split at h
    · next hroot =>
      split at h
      · next hres =>
        split at h
        · next hsame =>
          obtain rfl := Option.some.inj h
          rw [hsame] at hres
          exact Or.inl ⟨hres, hroot.1⟩
        · cases h
      · cases h
    · next hroot =>
      refine Or.inr ⟨(Option.some.inj h).symm, fun hzero => ?_⟩
      by_contra hnonNS
      exact hroot ⟨hzero, Bool.eq_false_iff.2 hnonNS⟩

theorem traverseStep_enter (h : enterPos mdal config state = some pos) :
    traverseStep mdal config linkchk state = enterElem mdal config linkchk { state with pos := pos } := by
  unfold enterPos at h
  dsimp only at h
  split at h
  · cases h
  · next helem =>
    obtain ⟨hnil, helem⟩ := not_or.1 helem
    obtain ⟨hup, hhere⟩ := not_or.1 helem
    rw [traverseStep]
    rw [if_neg hnil, if_neg hup, if_neg hhere]
    split at h
    · next hroot =>
      rw [if_pos hroot]
      split at h
      · next hshift =>
        split at h
        · next hsame =>
          obtain rfl := Option.some.inj h
          rw [hshift]
          exact if_neg (not_not.2 hsame)
        · cases h
      · cases h
    · next hroot =>
      obtain rfl := Option.some.inj h
      rw [if_neg hroot]

inductive Pass (mdal : Mdal) (config : MarfsConfig) (linkchk : Nat) (state : TraverseState) :
    TraverseState → Prop
  | up (hup : firstElem '/' state.pathelem = ['.', '.']) (hdepth : state.depth ≠ 0) :
    Pass mdal config linkchk state
      { state with pathelem := nextElem '/' state.pathelem, depth := state.depth - 1, nonNS := false }
  | here (hhere : firstElem '/' state.pathelem = ['.']) :
    Pass mdal config linkchk state { state with pathelem := nextElem '/' state.pathelem, nonNS := false }
  | shift {pos : MarfsPosition} {path : List Char} (hzero : state.depth = 0)
    (hhere : firstElem '/' state.pathelem ≠ ['.'])
    (hresult : configShiftns mdal config state.pos state.pathelem = .shifted pos path)
    (hmoved : path ≠ state.pathelem) : Pass mdal config linkchk state (shiftState state pos path)
  | enter {pos : MarfsPosition} {state' : TraverseState} (henter : enterPos mdal config state = some pos)
    (hstep : enterElem mdal config linkchk { state with pos := pos } = .next state') :
    Pass mdal config linkchk state state'

theorem traverseStep_pass (h : traverseStep mdal config linkchk state = .next state') :
    state.pathelem ≠ [] ∧ Pass mdal config linkchk state state' := by
  cases hent : enterPos mdal config state with
  | some pos =>
    rw [traverseStep_enter hent] at h
    refine ⟨?_, .enter hent h⟩
    intro hnil
    unfold enterPos at hent
    rw [hnil] at hent
    cases hent
  | none =>
    rw [traverseStep] at h
    by_cases hnil : state.pathelem = []
    · rw [if_pos hnil] at h
      cases h
    refine ⟨hnil, ?_⟩
    rw [if_neg hnil] at h
    by_cases hup : firstElem '/' state.pathelem = ['.', '.']
    · have hhere : firstElem '/' state.pathelem ≠ ['.'] := fun hhere => here_ne_up hhere hup
      rw [if_pos hup] at h
      split at h
      · next hzero =>
        split at h
        · next hres =>
          split at h
          · cases h
          · next hmov =>
            obtain rfl := LoopStep.next.inj h
            exact .shift hzero hhere hres hmov
        · cases h
        · cases h
      · next hdep =>
        obtain rfl := LoopStep.next.inj h
        exact .up hup hdep
    rw [if_neg hup] at h
    by_cases hhere : firstElem '/' state.pathelem = ['.']
    · rw [if_pos hhere] at h
      obtain rfl := LoopStep.next.inj h
      exact .here hhere
    rw [if_neg hhere] at h
    unfold enterPos at hent
    dsimp only at hent
    rw [if_neg (by rintro (h | h | h) <;> contradiction)] at hent
    split at h
    · next hroot =>
      rw [if_pos hroot] at hent
      split at h
      · next hres =>
        rw [hres] at hent
        dsimp only at hent
        split at h
        · next hmov =>
          obtain rfl := LoopStep.next.inj h
          exact .shift hroot.1 hhere hres hmov
        · next hsame =>
          rw [if_pos (not_not.1 hsame)] at hent
          cases hent
      · cases h
      · cases h
    · next hroot =>
      rw [if_neg hroot] at hent
      cases hent

end Traverse

end Marfs.Config
