import Marfs.Config.Replace

/-!
# Runs of the shift

`config_shiftns` ends where no further element of the path leads to another namespace, so a shift can be
cut into a shift of a part of the path and one of the rest, and the rest can be replaced by another text.
It keeps the depth of the position and does not look at it.
-/

namespace Marfs.Config

open Marfs.Path LoopStep List

variable {mdal : Mdal} {config : MarfsConfig} {pos pos' : MarfsPosition}
  {path path' mid rest other : List Char}

/-! ## The loop -/

def shiftNext (mdal : Mdal) (config : MarfsConfig) (vars : MarfsPosition × List Char) :
    LoopStep (MarfsPosition × List Char) Shifted :=
  shiftStep mdal config vars.1 vars.2

theorem shiftLoop_ends {fuel : Nat} (hhead : path.head? ≠ some '/') (hfuel : path.length ≤ fuel) :
    Ends (shiftNext mdal config) (pos, path) (shiftLoop mdal config fuel pos path) := by
  induction fuel generalizing pos path with
  | zero =>
    obtain rfl := List.length_eq_zero_iff.1 (Nat.le_zero.1 hfuel)
    exact (Ends.of_done (show shiftNext mdal config (pos, []) = .done (.shifted pos []) from rfl)).2 rfl
  | succ fuel ih =>
    rw [shiftLoop]
    cases hstep : shiftStep mdal config pos path with
    | next vars =>
      have hlt := shiftStep_length_lt hhead hstep
      exact (Ends.of_next hstep).2 (ih (shiftStep_head hstep) (by omega))
    | done result => exact (Ends.of_done hstep).2 rfl

theorem shiftReaches_head (hhead : path.head? ≠ some '/')
    (h : LoopStep.Reaches (shiftNext mdal config) (pos, path) (pos', path')) : path'.head? ≠ some '/' := by
  rcases Relation.ReflTransGen.cases_tail h with heq | ⟨⟨pos₁, path₁⟩, -, hlast⟩
  · obtain ⟨-, rfl⟩ := Prod.mk.inj heq
    exact hhead
  · exact shiftStep_head hlast

theorem shiftns_of_reaches (hhead : path.head? ≠ some '/')
    (h : LoopStep.Reaches (shiftNext mdal config) (pos, path) (pos', path')) :
    configShiftns mdal config pos path = configShiftns mdal config pos' path' := by
  have hends := (Ends.of_reaches h).1 (shiftLoop_ends hhead le_rfl)
  exact hends.unique (shiftLoop_ends (shiftReaches_head hhead h) le_rfl)

theorem shiftns_of_next (hhead : path.head? ≠ some '/')
    (h : shiftStep mdal config pos path = .next (pos', path')) :
    configShiftns mdal config pos path = configShiftns mdal config pos' path' :=
  shiftns_of_reaches hhead (Relation.ReflTransGen.single h)

theorem shiftns_of_done {result : Shifted} (hhead : path.head? ≠ some '/')
    (h : shiftStep mdal config pos path = .done result) :
    configShiftns mdal config pos path = result :=
  (Ends.of_done h).1 (shiftLoop_ends hhead le_rfl)

theorem shiftStep_here (hhere : firstElem '/' path = ['.']) :
    shiftStep mdal config pos path = .next (pos, nextElem '/' path) := by
  have hne : path ≠ [] := by
    rintro rfl
    cases hhere
  rw [shiftStep, if_neg hne, if_neg (here_ne_up hhere), if_pos hhere]

/-- References to the current directory do not matter. -/
theorem shiftns_dots (hhead : path.head? ≠ some '/') (h : Dots '/' ['.'] path path') :
    configShiftns mdal config pos path = configShiftns mdal config pos path' := by
  induction h with
  | refl => rfl
  | tail hdots hlast ih =>
    rw [ih, ← hlast.2]
    exact shiftns_of_next (Dots.head hdots hhead) (shiftStep_here hlast.1)

/-! ## Suffixes -/

theorem shiftStep_suffix (h : shiftStep mdal config pos path = .next (pos', path')) :
    path' <:+ nextElem '/' path := (shiftStep_pass h).2.suffix

theorem shiftReaches_suffix (h : LoopStep.Reaches (shiftNext mdal config) (pos, path) (pos', path')) :
    path' <:+ path := by
  generalize hvars : (pos, path) = vars at h
  induction h using Relation.ReflTransGen.head_induction_on generalizing pos path with
  | refl =>
    obtain ⟨-, rfl⟩ := Prod.mk.inj hvars
    exact suffix_rfl
  | @head _ next hfst _ ih =>
    subst hvars
    exact (ih (Prod.mk.eta.symm)).trans ((shiftStep_suffix hfst).trans (nextElem_suffix path))

theorem shiftns_reaches (hhead : path.head? ≠ some '/')
    (h : configShiftns mdal config pos path = .shifted pos' path') :
    LoopStep.Reaches (shiftNext mdal config) (pos, path) (pos', path') ∧
      (path' = [] ∨ Checked mdal (config.deref pos'.ns) path') := by
  have hends : Ends (shiftNext mdal config) (pos, path) (configShiftns mdal config pos path) :=
    shiftLoop_ends hhead le_rfl
  rw [h] at hends
  obtain ⟨⟨pos₁, path₁⟩, hreach, hdone⟩ := hends
  obtain ⟨rfl, rfl, hcheck⟩ := shiftStep_checked hdone
  exact ⟨hreach, hcheck⟩

/-! ## Another rest -/

def Exits (config : MarfsConfig) (vars : MarfsPosition × List Char) : Prop :=
  firstElem '/' vars.2 = ['.', '.'] ∧
    configEnterns config vars.1 (config.deref vars.1.ns).pnamespace ['.', '.'] true true = .exits

def Verifies (mdal : Mdal) (config : MarfsConfig) (vars : MarfsPosition × List Char) (text : List Char) :
    Prop :=
  ∃ vars' pos', LoopStep.Reaches (shiftNext mdal config) vars vars' ∧ Exits config vars' ∧
    shiftNext mdal config vars' = .next (pos', text)

theorem shiftStep_replace (habs : config.mountpoint = [] ∨ config.mountpoint.head? = some '/')
    (hrepl : Replaces other rest) {mid' : List Char}
    (h : shiftStep mdal config pos (mid ++ rest) = .next (pos', mid' ++ rest))
    (hmid : mid' ≠ [] → rest <:+ nextElem '/' (mid' ++ rest))
    (hnames : mid' = [] → Exits config (pos, mid ++ rest) → config.mount = [] → NamesEntry other) :
    ∃ text, shiftStep mdal config pos (mid ++ other) = .next (pos', text) ∧
      Dots '/' ['.'] (mid' ++ other) text := by
  have hsuf := (suffix_append mid' rest).trans (shiftStep_suffix h)
  obtain ⟨front, hrest, hfst, hoth, -⟩ := hrepl.next hsuf
  have hne' : mid ++ other ≠ [] := append_ne_nil_of_right_ne_nil _ hrepl.ne_nil
  obtain ⟨-, hpass⟩ := shiftStep_pass h
  rw [shiftStep, if_neg hne', hfst, hoth]
  generalize hleft : mid' ++ rest = left at hpass
  cases hpass with
  | up hup hent =>
    rw [hrest] at hleft
    obtain rfl := append_cancel_right hleft
    rw [if_pos hup, hent]
    exact ⟨_, rfl, .refl⟩
  | @back parsepath hup hexits hvalid =>
    have hprs := validateLoop_head (nextElem_head _) hvalid
    rw [skipSep_of_head hprs] at hleft
    subst hleft
    have hrepl' : Replaces (mid' ++ other) (mid' ++ rest) :=
      ⟨append_ne_nil_of_right_ne_nil _ hrepl.ne_nil, hrepl.append hprs,
        append_ne_nil_of_right_ne_nil _ hrepl.rest_ne_nil⟩
    have hglob : config.mount = [] → NamesEntry (mid' ++ other) := by
      intro hmount
      by_cases hnil : mid' = []
      · rw [hnil]
        exact hnames hnil ⟨hup, hexits⟩ hmount
      · have hbegins := validatemnt_begins habs hmount (fun _ => nextElem_head _) hvalid
        obtain ⟨-, hup', hhere'⟩ := (beginsWithName_iff hprs).1 hbegins
        obtain ⟨-, -, hfst', -⟩ := hrepl.next (hmid hnil)
        refine BeginsWithName.namesEntry hrepl'.head ((beginsWithName_iff hrepl'.head).2 ?_)
        rw [hfst']
        exact ⟨hrepl'.ne_nil, hup', hhere'⟩
    obtain ⟨front', hfront'⟩ := validatemnt_suffix hvalid
    rw [hrest, ← append_assoc] at hfront'
    obtain rfl := append_cancel_right hfront'
    rw [hrest, append_assoc] at hvalid
    obtain ⟨other', hvalid', hdots, -⟩ := validatemnt_replace habs hrepl' hprs hglob hvalid
    refine ⟨other', ?_, hdots⟩
    rw [if_pos hup, hexits, append_assoc]
    dsimp only
    rw [hvalid']
    dsimp only
    rw [skipSep_of_head (hdots.head hrepl'.head)]
  | here hhere =>
    rw [hrest] at hleft
    obtain rfl := append_cancel_right hleft
    rw [if_neg (here_ne_up hhere), if_pos hhere]
    exact ⟨_, rfl, .refl⟩
  | down hup hhere hlook hent =>
    have hmore : decide (nextElem '/' (mid ++ rest) ≠ []) = decide (front ++ other ≠ []) := by
      rw [hrest, decide_eq_true (append_ne_nil_of_right_ne_nil _ hrepl.rest_ne_nil),
        decide_eq_true (append_ne_nil_of_right_ne_nil _ hrepl.ne_nil)]
    rw [hmore] at hent
    rw [hrest] at hleft
    obtain rfl := append_cancel_right hleft
    rw [if_neg hup, if_neg hhere, hlook]
    dsimp only
    rw [hent]
    exact ⟨_, rfl, .refl⟩

theorem shiftns_replace (habs : config.mountpoint = [] ∨ config.mountpoint.head? = some '/')
    (hrepl : Replaces other rest) (hhead : (mid ++ rest).head? ≠ some '/')
    (hnames : Verifies mdal config (pos, mid ++ rest) rest → config.mount = [] → NamesEntry other)
    (h : LoopStep.Reaches (shiftNext mdal config) (pos, mid ++ rest) (pos', rest)) :
    configShiftns mdal config pos (mid ++ other) = configShiftns mdal config pos' other := by
  generalize hvars : (pos, mid ++ rest) = vars at h
  induction h using Relation.ReflTransGen.head_induction_on generalizing pos mid with
  | refl =>
    obtain ⟨rfl, heq⟩ := Prod.mk.inj hvars
    obtain rfl := List.append_left_eq_self.1 heq
    rfl
  | @head _ vars' hfst htail ih =>
    subst hvars
    obtain ⟨pos₁, path₁⟩ := vars'
    obtain ⟨mid₁, rfl⟩ := shiftReaches_suffix htail
    have hhead₁ := shiftStep_head hfst
    -- there is another step, unless the rest is reached
    have hmid : mid₁ ≠ [] → rest <:+ nextElem '/' (mid₁ ++ rest) := by
      intro hne
      rcases Relation.ReflTransGen.cases_head htail with heq | ⟨⟨pos₂, path₂⟩, hnext, hlater⟩
      · exact absurd (List.append_left_eq_self.1 (Prod.mk.inj heq).2) hne
      · exact (shiftReaches_suffix hlater).trans (shiftStep_suffix hnext)
    obtain ⟨text, hstep, hdots⟩ := shiftStep_replace habs hrepl hfst hmid fun hnil hexits hmount => by
      subst hnil
      exact hnames ⟨_, _, .refl, hexits, hfst⟩ hmount
    calc configShiftns mdal config pos (mid ++ other)
        = configShiftns mdal config pos₁ text := shiftns_of_next (hrepl.append hhead) hstep
      _ = configShiftns mdal config pos₁ (mid₁ ++ other) :=
          (shiftns_dots (hrepl.append hhead₁) hdots).symm
      _ = configShiftns mdal config pos' other := by
          refine ih hhead₁ (fun hverifies => hnames ?_) rfl
          obtain ⟨vars, pos₂, hreach, hexits, hlast⟩ := hverifies
          exact ⟨vars, pos₂, Relation.ReflTransGen.head hfst hreach, hexits, hlast⟩

/-! ## The depth of the position -/

def MarfsPosition.atDepth (pos : MarfsPosition) (depth : Nat) : MarfsPosition := { pos with depth := depth }

def Entered.atDepth (depth : Nat) : Entered → Entered
  | .entered pos => .entered (pos.atDepth depth)
  | .exits => .exits
  | .failed => .failed

def Shifted.atDepth (depth : Nat) : Shifted → Shifted
  | .shifted pos path => .shifted (pos.atDepth depth) path
  | .failed => .failed
  | .crashed => .crashed

section Depth

variable (depth : Nat)

theorem refresh_atDepth (updatectxt : Bool) :
    refresh config (pos.atDepth depth) updatectxt = (refresh config pos updatectxt).atDepth depth := by
  obtain ⟨ns, depth₀, ctxt⟩ := pos
  cases updatectxt with
  | false => rfl
  | true =>
    have hfortify : configFortifyposition config ⟨ns, depth, none⟩ =
        (configFortifyposition config ⟨ns, depth₀, none⟩).map (·.atDepth depth) := by
      cases ns with
      | table n =>
        cases hpath : nsPath (config.ns n).idstr with
        | none => simp [configFortifyposition, hpath]
        | some _ => simp [configFortifyposition, hpath, MarfsPosition.atDepth]
      | copy ns =>
        cases hpath : nsPath ns.idstr with
        | none => simp [configFortifyposition, hpath]
        | some _ =>
          cases hghost : ns.ghtarget with
          | none => simp [configFortifyposition, hpath, hghost]
          | some ghtarget =>
            cases htgt : nsPath (config.ns ghtarget).idstr with
            | none => simp [configFortifyposition, hpath, hghost, htgt]
            | some _ => simp [configFortifyposition, hpath, hghost, htgt, MarfsPosition.atDepth]
    unfold refresh MarfsPosition.atDepth
    dsimp only
    rw [if_pos rfl, if_pos rfl, hfortify]
    cases configFortifyposition config ⟨ns, depth₀, none⟩ with
    | none => rfl
    | some _ => rfl

theorem configEnterns_atDepth (nextns : Option Nat) (relpath : List Char) (ascending updatectxt : Bool) :
    configEnterns config (pos.atDepth depth) nextns relpath ascending updatectxt =
      (configEnterns config pos nextns relpath ascending updatectxt).atDepth depth := by
  have hrefresh : ∀ ns, refresh config { pos.atDepth depth with ns := ns } updatectxt =
      (refresh config { pos with ns := ns } updatectxt).atDepth depth := fun ns =>
    @refresh_atDepth config { pos with ns := ns } depth updatectxt
  unfold configEnterns
  have hns : (pos.atDepth depth).ns = pos.ns := rfl
  rw [hns]
  dsimp only
  split
  · split
    · rfl
    · split
      · -- between standard namespaces
        unfold enterStandard
        dsimp only
        split
        · have hctxt : (pos.atDepth depth).ctxt = pos.ctxt := rfl
          rw [hctxt]
          cases config.setnamespace pos.ctxt relpath with
          | none => rfl
          | some _ => rfl
        · exact hrefresh _
      · unfold enterGhost
        dsimp only
        split
        · rfl
        · exact hrefresh _
  · split
    · split
      · exact hrefresh _
      · rfl
    · split
      · rfl
      · unfold moveGhost
        dsimp only
        split
        · rfl
        · split
          · rfl
          · exact hrefresh _

theorem shiftStep_atDepth :
    shiftStep mdal config (pos.atDepth depth) path =
      match shiftStep mdal config pos path with
      | .next (pos', path') => .next (pos'.atDepth depth, path')
      | .done result => .done (result.atDepth depth) := by
  have hns : (pos.atDepth depth).ns = pos.ns := rfl
  unfold shiftStep
  simp only [configEnterns_atDepth, hns]
  by_cases hnil : path = []
  · rw [if_pos hnil, if_pos hnil]
    rfl
  rw [if_neg hnil, if_neg hnil]
  by_cases hup : firstElem '/' path = ['.', '.']
  · rw [if_pos hup, if_pos hup]
    cases configEnterns config pos (config.deref pos.ns).pnamespace ['.', '.'] true true with
    | entered pos => rfl
    | exits =>
      dsimp only [Entered.atDepth]
      cases configValidatemnt config (some pos.ns) (nextElem '/' path) with
      | none => rfl
      | some parsepath => rfl
    | failed => rfl
  rw [if_neg hup, if_neg hup]
  by_cases hhere : firstElem '/' path = ['.']
  · rw [if_pos hhere, if_pos hhere]
  rw [if_neg hhere, if_neg hhere]
  cases (config.deref pos.ns).subnodes.lookup (firstElem '/' path) with
  | none =>
    dsimp only
    split
    · rfl
    · rfl
  | some subspace =>
    dsimp only
    cases configEnterns config pos (some subspace) (firstElem '/' path) false
        (decide (nextElem '/' path ≠ [])) with
    | entered pos => rfl
    | exits => rfl
    | failed => rfl

theorem shiftns_atDepth :
    configShiftns mdal config (pos.atDepth depth) path =
      (configShiftns mdal config pos path).atDepth depth := by
  unfold configShiftns
  generalize path.length = fuel
  induction fuel generalizing pos path with
  | zero => rfl
  | succ fuel ih =>
    rw [shiftLoop, shiftLoop, shiftStep_atDepth]
    cases shiftStep mdal config pos path with
    | next vars => exact ih
    | done result => rfl

end Depth

end Marfs.Config
