import Marfs.Config.Loop
import Marfs.Config.Pass

/-!
# Chains of links

The loop of `config_traverse` puts the text of a link in place of the link, and goes on with that text.
Every other pass shortens the path.  So the loop goes on for ever only in one way: while the text of a link
is parsed another link is met, while its text is parsed another, and so on (`traverse_returns_iff`).  There
is no count of links, and a link to itself is such a chain.
-/

namespace Marfs.Config

open Marfs.Path

/-! ## Links on the way -/

def MeetsLink (mdal : Mdal) (config : MarfsConfig) (linkchk : Nat) (state : TraverseState)
    (pos : MarfsPosition) (content : List Char) : Prop :=
  enterPos mdal config state = some pos ∧
    (linkchk = 1 ∨ (linkchk > 1 ∧ ¬nextElem '/' state.pathelem = [])) ∧
    mdal.stat pos.ctxt (state.relpath.take
      (state.relpath.length - (skipElem '/' state.pathelem).length)) = .link content

section Passes

variable {mdal : Mdal} {config : MarfsConfig} {linkchk : Nat} {state state' : TraverseState}
  {pos : MarfsPosition}

theorem traverseStep_link {content : List Char} (h : MeetsLink mdal config linkchk state pos content) :
    traverseStep mdal config linkchk state =
      substituteLink config { state with pos := pos } content := by
  obtain ⟨hent, hcheck, hstat⟩ := h
  rw [traverseStep_enter hent, enterElem]
  dsimp only
  rw [if_pos hcheck, hstat]

theorem shiftLoop_suffix {fuel : Nat} {pos pos' : MarfsPosition} {path path' : List Char}
    (h : shiftLoop mdal config fuel pos path = .shifted pos' path') : path' <:+ path := by
  induction fuel generalizing pos path with
  | zero =>
    obtain ⟨-, rfl⟩ := Shifted.shifted.inj h
    exact List.suffix_rfl
  | succ fuel ih =>
    rw [shiftLoop] at h
    split at h
    · next hstep =>
      obtain ⟨-, hpass⟩ := shiftStep_pass hstep
      exact (ih h).trans (hpass.suffix.trans (nextElem_suffix path))
    · next hstep =>
      subst h
      obtain ⟨-, rfl, -⟩ := shiftStep_stops hstep
      exact List.suffix_rfl

theorem configShiftns_length_lt {path path' : List Char}
    (h : configShiftns mdal config state.pos path = .shifted pos path') (hne : path' ≠ path) :
    path'.length < path.length := by
  have hsuf := shiftLoop_suffix h
  exact lt_of_le_of_ne hsuf.length_le fun hlen => hne (hsuf.eq_of_length hlen)

theorem enterElem_subdir (hent : enterPos mdal config state = some pos)
    (hno : ¬∃ pos content, MeetsLink mdal config linkchk state pos content)
    (h : enterElem mdal config linkchk { state with pos := pos } = .next state') :
    state' = ⟨pos, state.relpath, nextElem '/' state.pathelem, state.depth + 1, false⟩ ∧
      (linkchk = 1 ∨ (linkchk > 1 ∧ ¬nextElem '/' state.pathelem = []) →
        mdal.stat pos.ctxt (state.relpath.take
          (state.relpath.length - (skipElem '/' state.pathelem).length)) = .other) := by
  unfold enterElem at h
  dsimp only at h
  split at h
  · next hcheck =>
    split at h
    · cases h
    · next content hstat => exact absurd ⟨pos, content, hent, hcheck, hstat⟩ hno
    · next hstat => exact ⟨(LoopStep.next.inj h).symm, fun _ => hstat⟩
  · next hcheck => exact ⟨(LoopStep.next.inj h).symm, fun h => absurd h hcheck⟩

theorem traverseStep_length_lt (h : traverseStep mdal config linkchk state = .next state')
    (hno : ¬∃ pos content, MeetsLink mdal config linkchk state pos content) :
    state'.pathelem.length < state.pathelem.length := by
  obtain ⟨hnil, hpass⟩ := traverseStep_pass h
  have hlt := nextElem_length_lt_of_ne_nil '/' hnil
  cases hpass with
  | up hup hdep => exact hlt
  | here hhere => exact hlt
  | shift hzero hhere hres hmov => exact configShiftns_length_lt hres hmov
  | enter hent hstep =>
    obtain ⟨rfl, -⟩ := enterElem_subdir hent hno hstep
    exact hlt

end Passes

/-! ## The result -/

/-- There is an endless chain of links: the first is met by the traversal, and each of the others while
the text of the one before is parsed, that is while more is left of the path than what was behind that
link. -/
def EndlessLinks (mdal : Mdal) (config : MarfsConfig) (pos : MarfsPosition) (subpath : List Char)
    (linkchk : Nat) : Prop :=
  ∃ state, traverseEntry config pos subpath = .next state ∧
    LoopStep.Endless (traverseStep mdal config linkchk) (fun state => state.pathelem.length)
      (fun state => (nextElem '/' state.pathelem).length)
      (fun state => ∃ pos content, MeetsLink mdal config linkchk state pos content) state

/-- A traversal returns if and only if there is no endless chain of links on its way. -/
theorem traverse_returns_iff (mdal : Mdal) (config : MarfsConfig) (pos : MarfsPosition)
    (subpath : List Char) (linkchk : Nat) :
    (∃ fuel, (configTraverse mdal config fuel pos subpath linkchk).isSome) ↔
      ¬EndlessLinks mdal config pos subpath linkchk := by
  unfold EndlessLinks
  cases hentry : traverseEntry config pos subpath with
  | done result =>
    refine iff_of_true ⟨0, ?_⟩ ?_
    · rw [configTraverse_eq_entry, hentry]
      rfl
    · rintro ⟨state, heq, -⟩
      cases heq
  | next state =>
    have hends : (∃ fuel, (configTraverse mdal config fuel pos subpath linkchk).isSome) ↔
        ∃ result, LoopStep.Ends (traverseStep mdal config linkchk) state result := by
      constructor
      · rintro ⟨fuel, hsome⟩
        obtain ⟨result, hresult⟩ := Option.isSome_iff_exists.1 hsome
        rw [configTraverse_eq_entry, hentry] at hresult
        dsimp only at hresult
        rw [traverseLoop_eq_iterate] at hresult
        exact ⟨result, LoopStep.iterate_iff_ends.1 ⟨fuel, hresult⟩⟩
      · rintro ⟨result, hends⟩
        obtain ⟨fuel, hfuel⟩ := LoopStep.iterate_iff_ends.2 hends
        refine ⟨fuel, ?_⟩
        rw [configTraverse_eq_entry, hentry]
        dsimp only
        rw [traverseLoop_eq_iterate, hfuel]
        rfl
    have hnil : ∀ {state : TraverseState} {pos : MarfsPosition} {content : List Char},
        MeetsLink mdal config linkchk state pos content → state.pathelem ≠ [] := by
      intro state pos content hmeets hnil
      have henter := hmeets.1
      unfold enterPos at henter
      rw [hnil] at henter
      cases henter
    rw [hends, LoopStep.ends_iff_not_endless]
    · constructor
      · rintro hno ⟨state', heq, hendless⟩
        rw [← LoopStep.next.inj heq] at hendless
        exact hno hendless
      · exact fun hno hendless => hno ⟨state, rfl, hendless⟩
    · exact fun hstep hno => traverseStep_length_lt hstep hno
    · rintro state ⟨pos, content, hmeets⟩
      exact nextElem_length_lt_of_ne_nil '/' (hnil hmeets)
    · intro state hzero
      refine ⟨.done state.pos state.relpath state.depth, ?_⟩
      rw [traverseStep]
      exact if_pos (List.eq_nil_of_length_eq_zero hzero)

def selfLink : Mdal := ⟨fun _ _ => false, fun _ path => if path = ['l'] then .link ['l'] else .other⟩

def bareConfig : MarfsConfig where
  mountpoint := ['/', 'm']
  rootns := 0
  ns _ := ⟨['r', '|', '/'], 0, 0, 0, 0, 0, none, [], none, none⟩

/-- A link to itself, in the root of a config, is parsed for ever. -/
theorem selfLink_never_returns :
    ¬∃ fuel, (configTraverse selfLink bareConfig fuel ⟨.table 0, 0, some (.plain 0 [])⟩ ['l'] 1).isSome := by
  rintro ⟨fuel, hsome⟩
  have hstep : traverseStep selfLink bareConfig 1
      ⟨⟨.table 0, 0, some (.plain 0 [])⟩, ['l'], ['l'], 0, false⟩ =
        .next ⟨⟨.table 0, 0, some (.plain 0 [])⟩, ['l'], ['l'], 0, false⟩ := rfl
  have hloop : ∀ fuel, traverseLoop selfLink bareConfig 1 fuel
      ⟨⟨.table 0, 0, some (.plain 0 [])⟩, ['l'], ['l'], 0, false⟩ = none := by
    intro fuel
    induction fuel with
    | zero => rfl
    | succ fuel ih =>
      rw [traverseLoop, hstep]
      exact ih
  have hnone : configTraverse selfLink bareConfig fuel ⟨.table 0, 0, some (.plain 0 [])⟩ ['l'] 1 = none :=
    hloop fuel
  rw [hnone] at hsome
  cases hsome

end Marfs.Config
