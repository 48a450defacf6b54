import Marfs.Config.ShiftRun

/-!
# Traversals with another text

Where a pass of `config_traverse` meets no link, what is left of the path behind it can be replaced by
another text: the run goes on as if the pass were made with the text in place (`Pass.withText`).  What is
in front of the current element may then differ in references to the current directory, which are kept in
a path behind a link's text and dropped by `config_shiftns`.
-/

namespace Marfs.Config

open Marfs.Path LoopStep List

/-! ## Results -/

/-- Results that denote the same object: all but references to the current directory and repeated
separators is the same. -/
inductive Traversed.Alike : Traversed → Traversed → Prop
  | done {pos : MarfsPosition} {subpath subpath' : List Char} {depth : Nat}
    (same : named '/' ['.'] subpath = named '/' ['.'] subpath') :
    Traversed.Alike (.done pos subpath depth) (.done pos subpath' depth)
  | failed : Traversed.Alike .failed .failed
  | crashed : Traversed.Alike .crashed .crashed

theorem Traversed.Alike.refl (result : Traversed) : result.Alike result := by
  cases result with
  | done pos subpath depth => exact .done rfl
  | failed => exact .failed
  | crashed => exact .crashed

theorem Traversed.Alike.symm {result result' : Traversed} (h : result.Alike result') :
    result'.Alike result := by
  cases h with
  | done same => exact .done same.symm
  | failed => exact .failed
  | crashed => exact .crashed

theorem Traversed.Alike.trans {result result' result'' : Traversed} (h : result.Alike result')
    (h' : result'.Alike result'') : result.Alike result'' := by
  cases h with
  | done same =>
    cases h' with
    | done same' => exact .done (same.trans same')
  | failed => exact h'
  | crashed => exact h'

/-- What `stat` tells of a name in a directory does not depend on references to the current directory, or
on repeated separators, in the relative path of the directory. -/
def Mdal.StatByName (mdal : Mdal) : Prop :=
  ∀ {ctxt : Option Ctxt} {front front' name : List Char}, Front '/' front → Front '/' front' →
    front.head? ≠ some '/' → front'.head? ≠ some '/' →
    named '/' ['.'] front = named '/' ['.'] front' → name ≠ [] → '/' ∉ name →
    mdal.stat ctxt (front ++ name) = mdal.stat ctxt (front' ++ name)

/-! ## References to the current directory in front -/

section Similar

variable {mdal : Mdal} {config : MarfsConfig} {linkchk : Nat} {state state' : TraverseState}

/-- Two texts in front of the current element that lead to the same directory. -/
structure Fronts (pathelem relpath relpath' : List Char) (front front' : List Char) : Prop where
  eq : relpath = front ++ pathelem
  eq' : relpath' = front' ++ pathelem
  relative : front.head? ≠ some '/'
  relative' : front'.head? ≠ some '/'
  closed : pathelem ≠ [] → Front '/' front ∧ Front '/' front'
  names : named '/' ['.'] front = named '/' ['.'] front'

/-- Two states of the loop that differ in references to the current directory in front of the current
element. -/
structure Similar (state state' : TraverseState) : Prop where
  pos : state'.pos = state.pos
  pathelem : state'.pathelem = state.pathelem
  depth : state'.depth = state.depth
  head : state.pathelem.head? ≠ some '/'
  fronts : ∃ front front', Fronts state.pathelem state.relpath state'.relpath front front'

def Abreast (state state' : TraverseState) : Prop := Similar state state' ∧ state'.nonNS = state.nonNS

/-- A state with nothing in front of the current element. -/
theorem Similar.fresh {pos : MarfsPosition} {path : List Char} {depth : Nat} {nonNS nonNS' : Bool}
    (hhead : path.head? ≠ some '/') :
    Similar ⟨pos, path, path, depth, nonNS⟩ ⟨pos, path, path, depth, nonNS'⟩ :=
  ⟨rfl, rfl, rfl, hhead, [], [], ⟨rfl, rfl, nofun, nofun, fun _ => ⟨Or.inl rfl, Or.inl rfl⟩, rfl⟩⟩

theorem append_relative {front text : List Char} (hfront : front.head? ≠ some '/')
    (htext : text.head? ≠ some '/') : (front ++ text).head? ≠ some '/' := by
  cases front with
  | nil => exact htext
  | cons c front => exact hfront

theorem relative_of_append {elem rest : List Char} (h : (elem ++ rest).head? ≠ some '/') :
    elem.head? ≠ some '/' := by
  intro hsep
  apply h
  rw [List.head?_append, hsep]
  rfl

theorem Similar.elem (h : Similar state state') (hne : state.pathelem ≠ []) (depth : Nat) (nonNS : Bool) :
    Similar { state with pathelem := nextElem '/' state.pathelem, depth := depth, nonNS := nonNS }
      { state' with pathelem := nextElem '/' state'.pathelem, depth := depth, nonNS := nonNS } := by
  obtain ⟨hpos, hpath, -, hhead, front, front', heq, heq', hrel, hrel', hcl, hnames⟩ := h
  obtain ⟨hfront, hfront'⟩ := hcl hne
  obtain ⟨elem, helem, -, hend⟩ := exists_elem hhead hne
  have helemhead := relative_of_append (helem.symm ▸ hhead)
  refine ⟨hpos, congrArg (nextElem '/') hpath, rfl, nextElem_head _, front ++ elem, front' ++ elem, ?_⟩
  constructor
  · rw [append_assoc, helem]
    exact heq
  · rw [append_assoc, helem]
    exact heq'
  · exact append_relative hrel helemhead
  · exact append_relative hrel' helemhead
  · intro hnext
    have hseps : Front '/' elem := Or.inr (hend.resolve_left hnext)
    exact ⟨hfront.append hseps, hfront'.append hseps⟩
  · rw [hfront.named_append, hfront'.named_append, hnames]

theorem Similar.enter (hstat : mdal.StatByName) (h : Similar state state') (hne : state.pathelem ≠ []) :
    LoopStep.Rel Abreast Traversed.Alike
      (enterElem mdal config linkchk state) (enterElem mdal config linkchk state') := by
  have hsubdir := h.elem hne (state.depth + 1) false
  obtain ⟨hpos, hpath, hdep, hhead, front, front', hfronts⟩ := h
  obtain ⟨heq, heq', hrel, hrel', hcl, hnames⟩ := hfronts
  obtain ⟨hfront, hfront'⟩ := hcl hne
  have hsame : mdal.stat state'.pos.ctxt (state'.relpath.take
      (state'.relpath.length - (skipElem '/' state'.pathelem).length)) =
        mdal.stat state.pos.ctxt (state.relpath.take
          (state.relpath.length - (skipElem '/' state.pathelem).length)) := by
    rw [hpos, hpath, heq, heq', take_firstElem, take_firstElem]
    exact (hstat hfront hfront' hrel hrel' hnames (firstElem_ne_nil hhead hne)
      (sep_notMem_firstElem _)).symm
  unfold enterElem
  dsimp only
  rw [hsame, hpath, hdep]
  rw [hpath] at hsubdir
  split
  · split
    · exact .done .failed
    · next content _ =>
      unfold substituteLink
      dsimp only
      rw [hpath]
      split
      · exact .done .failed
      · next hcont =>
        have hcont : content ≠ [] := fun hnil => hcont (Or.inl hnil)
        split
        · split
          · exact .done .failed
          · next parsestart hvalid =>
            rw [hpos]
            exact .next ⟨.fresh (validatemnt_head hvalid), rfl⟩
        · next habs =>
          refine .next ⟨⟨hpos, rfl, hdep, ?_, front, front', ?_⟩, rfl⟩
          · rw [List.head?_append_of_ne_nil _ hcont]
            exact habs
          · have hkept : ∀ {front relpath : List Char}, relpath = front ++ state.pathelem →
                relpath.take (relpath.length - state.pathelem.length) = front := by
              rintro front relpath rfl
              rw [length_append, Nat.add_sub_cancel, take_left]
            dsimp only
            rw [hkept heq, hkept heq']
            exact ⟨rfl, rfl, hrel, hrel', fun _ => ⟨hfront, hfront'⟩, hnames⟩
    · exact .next ⟨hsubdir, rfl⟩
  · exact .next ⟨hsubdir, rfl⟩

/-- One pass. -/
theorem Abreast.step (hstat : mdal.StatByName) (h : Abreast state state') :
    LoopStep.Rel Abreast Traversed.Alike
      (traverseStep mdal config linkchk state) (traverseStep mdal config linkchk state') := by
  obtain ⟨h, hnonNS⟩ := h
  have hpos := h.pos
  have hpath := h.pathelem
  have hdep := h.depth
  unfold traverseStep
  dsimp only
  rw [hpos, hpath, hdep, hnonNS]
  by_cases hnil : state.pathelem = []
  · rw [if_pos hnil, if_pos hnil]
    obtain ⟨front, front', heq, heq', -, -, -, hnames⟩ := h.fronts
    refine .done (.done ?_)
    rw [heq, heq', hnil, List.append_nil, List.append_nil, hnames]
  rw [if_neg hnil, if_neg hnil]
  have helem : ∀ depth, Similar
      ⟨state.pos, state.relpath, nextElem '/' state.pathelem, depth, false⟩
      ⟨state.pos, state'.relpath, nextElem '/' state.pathelem, depth, false⟩ := by
    intro depth
    have helem := h.elem hnil depth false
    rw [hpos, hpath] at helem
    exact helem
  have hshift : ∀ pos shiftres, configShiftns mdal config state.pos state.pathelem = .shifted pos shiftres →
      Similar (shiftState state pos shiftres) (shiftState state' pos shiftres) := by
    intro pos shiftres hres
    unfold shiftState
    rw [hdep]
    exact .fresh (shiftns_checked h.head hres).1
  by_cases hup : firstElem '/' state.pathelem = ['.', '.']
  · rw [if_pos hup, if_pos hup]
    by_cases hzero : state.depth = 0
    · rw [if_pos hzero, if_pos hzero]
      cases hres : configShiftns mdal config state.pos state.pathelem with
      | shifted pos parsepath =>
        dsimp only
        split
        · exact .done .failed
        · exact .next ⟨hshift _ _ hres, rfl⟩
      | failed => exact .done .failed
      | crashed => exact .done .crashed
    · rw [if_neg hzero, if_neg hzero]
      exact .next ⟨helem _, rfl⟩
  rw [if_neg hup, if_neg hup]
  by_cases hhere : firstElem '/' state.pathelem = ['.']
  · rw [if_pos hhere, if_pos hhere]
    exact .next ⟨helem _, rfl⟩
  rw [if_neg hhere, if_neg hhere]
  by_cases hcheck : state.depth = 0 ∧ state.nonNS = false
  · rw [if_pos hcheck, if_pos hcheck]
    cases hres : configShiftns mdal config state.pos state.pathelem with
    | shifted pos shiftres =>
      dsimp only
      split
      · exact .next ⟨hshift _ _ hres, rfl⟩
      · have hmov : Similar { state with pos := pos } { state' with pos := pos } :=
          ⟨rfl, hpath, hdep, h.head, h.fronts⟩
        have hent : LoopStep.Rel _ _ (enterElem mdal config linkchk { state with pos := pos })
            (enterElem mdal config linkchk { state' with pos := pos }) := hmov.enter hstat hnil
        rw [hpath, hdep, hnonNS] at hent
        exact hent
    | failed => exact .done .failed
    | crashed => exact .done .crashed
  · rw [if_neg hcheck, if_neg hcheck]
    exact h.enter hstat hnil

theorem Abreast.endAlike (hstat : mdal.StatByName) (h : Abreast state state') :
    EndAlike Traversed.Alike (traverseStep mdal config linkchk) state state' :=
  endAlike_of_rel (fun habreast => habreast.step hstat) h

end Similar

/-! ## Texts at the root of a namespace -/

section Lands

variable {mdal : Mdal} {config : MarfsConfig} {linkchk : Nat} {state state' : TraverseState}
  {pos : MarfsPosition} {path front : List Char}

def Lands (mdal : Mdal) (config : MarfsConfig) (linkchk : Nat) (state : TraverseState) : Shifted → Prop
  | .shifted pos path =>
    EndAlike Traversed.Alike (traverseStep mdal config linkchk) state ⟨pos.atDepth 0, path, path, 0, true⟩
  | .failed => Ends (traverseStep mdal config linkchk) state .failed
  | .crashed => Ends (traverseStep mdal config linkchk) state .crashed

theorem endAlike_of_ends {result : Traversed} (h : Ends (traverseStep mdal config linkchk) state result)
    (h' : Ends (traverseStep mdal config linkchk) state' result) :
    EndAlike Traversed.Alike (traverseStep mdal config linkchk) state state' := by
  constructor
  · intro other hoth
    rw [hoth.unique h]
    exact ⟨result, h', .refl result⟩
  · intro other hoth
    rw [hoth.unique h']
    exact ⟨result, h, .refl result⟩

theorem Lands.endAlike {shifted : Shifted} (h : Lands mdal config linkchk state shifted)
    (h' : Lands mdal config linkchk state' shifted) :
    EndAlike Traversed.Alike (traverseStep mdal config linkchk) state state' := by
  cases shifted with
  | shifted pos path => exact EndAlike.trans Traversed.Alike.trans h (EndAlike.symm Traversed.Alike.symm h')
  | failed => exact endAlike_of_ends h h'
  | crashed => exact endAlike_of_ends h h'

theorem lands_of_moves (hzero : state.depth = 0) (hnonNS : state.nonNS = false) (hnil : state.pathelem ≠ [])
    (hhere : firstElem '/' state.pathelem ≠ ['.'])
    (hmoves : ∀ pos, configShiftns mdal config state.pos state.pathelem ≠ .shifted pos state.pathelem) :
    Lands mdal config linkchk state (configShiftns mdal config state.pos state.pathelem) := by
  have hstep : traverseStep mdal config linkchk state =
      match configShiftns mdal config state.pos state.pathelem with
      | .shifted pos path => .next ⟨pos.atDepth 0, path, path, 0, true⟩
      | .failed => .done .failed
      | .crashed => .done .crashed := by
    rw [traverseStep, if_neg hnil]
    generalize hres : configShiftns mdal config state.pos state.pathelem = result at hmoves
    by_cases hup : firstElem '/' state.pathelem = ['.', '.']
    · rw [if_pos hup, if_pos hzero]
      cases result with
      | shifted pos path =>
        dsimp only
        rw [if_neg fun heq => hmoves pos (by rw [heq]), shiftState, hzero]
        rfl
      | failed => rfl
      | crashed => rfl
    · rw [if_neg hup, if_neg hhere, if_pos ⟨hzero, hnonNS⟩]
      cases result with
      | shifted pos path =>
        dsimp only
        rw [if_pos fun heq => hmoves pos (by rw [heq]), shiftState, hzero]
        rfl
      | failed => rfl
      | crashed => rfl
  cases hres : configShiftns mdal config state.pos state.pathelem with
  | shifted pos path =>
    rw [hres] at hstep
    exact (EndAlike.next_left hstep).2 (EndAlike.refl Traversed.Alike.refl _)
  | failed =>
    rw [hres] at hstep
    exact (Ends.of_done hstep).2 rfl
  | crashed =>
    rw [hres] at hstep
    exact (Ends.of_done hstep).2 rfl

theorem Lands.of_next {shifted : Shifted} (hstep : traverseStep mdal config linkchk state = .next state')
    (h : Lands mdal config linkchk state' shifted) : Lands mdal config linkchk state shifted := by
  cases shifted with
  | shifted pos path => exact (EndAlike.next_left hstep).2 h
  | failed => exact (Ends.of_next hstep).2 h
  | crashed => exact (Ends.of_next hstep).2 h

theorem traverseStep_here (hhere : firstElem '/' state.pathelem = ['.']) :
    traverseStep mdal config linkchk state =
      .next { state with pathelem := nextElem '/' state.pathelem, nonNS := false } := by
  have hne : state.pathelem ≠ [] := by
    intro hnil
    rw [hnil] at hhere
    cases hhere
  rw [traverseStep, if_neg hne, if_neg (here_ne_up hhere), if_pos hhere]

theorem enterPos_of_stays (state : TraverseState) (hzero : state.depth = 0)
    (hhead : state.pathelem.head? ≠ some '/') (hnil : state.pathelem ≠ [])
    (hstays : configShiftns mdal config state.pos state.pathelem = .shifted state.pos state.pathelem) :
    enterPos mdal config state = some state.pos := by
  obtain ⟨hup, hhere, -⟩ := (shiftns_checked hhead hstays).2.resolve_left hnil
  unfold enterPos
  dsimp only
  rw [if_neg (by rintro (h | h | h) <;> contradiction)]
  by_cases hnonNS : state.nonNS = false
  · rw [if_pos ⟨hzero, hnonNS⟩, hstays]
    exact if_pos rfl
  · rw [if_neg fun h => hnonNS h.2]

theorem lands_root (hstat : mdal.StatByName) (hdep : pos.depth = 0) (hhead : path.head? ≠ some '/')
    (hrelative : front.head? ≠ some '/') (hcl : path ≠ [] → Front '/' front)
    (hnames : named '/' ['.'] front = []) :
    Lands mdal config linkchk ⟨pos, front ++ path, path, 0, false⟩ (configShiftns mdal config pos path) := by
  have hpos : pos.atDepth 0 = pos := by
    obtain ⟨ns, depth, ctxt⟩ := pos
    obtain rfl : depth = 0 := hdep
    rfl
  induction hlen : path.length using Nat.strong_induction_on generalizing front path with
  | _ n ih =>
    by_cases hnil : path = []
    · subst hnil
      have hshift : configShiftns mdal config pos [] = .shifted pos [] := rfl
      rw [hshift, Lands, hpos, List.append_nil]
      refine EndAlike.done rfl rfl (.done ?_)
      rw [hnames, named_nil]
    by_cases hhere : firstElem '/' path = ['.']
    · -- one reference more in front
      obtain ⟨elem, helem, hcomps, hend⟩ := exists_elem hhead hnil
      have helemhead := relative_of_append (helem.symm ▸ hhead)
      have hlt := nextElem_length_lt hhead hnil
      have hrel : front ++ path = (front ++ elem) ++ nextElem '/' path := by
        rw [append_assoc, helem]
      have helemnames : named '/' ['.'] elem = [] := by
        rw [named, hcomps, hhere]
        rfl
      have hnext := ih _ (hlen ▸ hlt) (nextElem_head path) (append_relative hrelative helemhead)
        (fun hne => (hcl hnil).append (Or.inr (hend.resolve_left hne)))
        (by rw [(hcl hnil).named_append, hnames, helemnames]; rfl) rfl
      rw [← hrel, ← shiftns_of_next hhead (shiftStep_here hhere)] at hnext
      exact Lands.of_next (traverseStep_here hhere) hnext
    by_cases hstays : ∃ pos', configShiftns mdal config pos path = .shifted pos' path
    · obtain ⟨pos', hres⟩ := hstays
      obtain rfl := shiftns_stays hhead hres
      rw [hres, Lands, hpos]
      apply EndAlike.of_pass (fun habreast => Abreast.endAlike hstat habreast)
      rw [traverseStep_enter (enterPos_of_stays ⟨pos', front ++ path, path, 0, false⟩ rfl hhead hnil hres),
        traverseStep_enter (enterPos_of_stays ⟨pos', path, path, 0, true⟩ rfl hhead hnil hres)]
      refine Similar.enter hstat ⟨rfl, rfl, rfl, hhead, front, [], ?_⟩ hnil
      exact ⟨rfl, rfl, hrelative, fun h => (by cases h), fun hne => ⟨hcl hne, Or.inl rfl⟩, by rw [hnames, named_nil]⟩
    · exact lands_of_moves rfl rfl hnil hhere fun pos' hres => hstays ⟨pos', hres⟩

/-- With nothing in front. -/
theorem lands_fresh (hstat : mdal.StatByName) (hdep : pos.depth = 0) (hhead : path.head? ≠ some '/') :
    Lands mdal config linkchk ⟨pos, path, path, 0, false⟩ (configShiftns mdal config pos path) := by
  have hlands : Lands mdal config linkchk ⟨pos, [] ++ path, path, 0, false⟩
      (configShiftns mdal config pos path) :=
    lands_root hstat hdep hhead nofun (fun _ => Or.inl rfl) (named_nil _)
  exact hlands

theorem lands_atDepth {depth : Nat} (shifted : Shifted) :
    Lands mdal config linkchk state (shifted.atDepth depth) ↔ Lands mdal config linkchk state shifted := by
  cases shifted <;> rfl

end Lands

/-! ## What a pass can do -/

section Passes

variable {mdal : Mdal} {config : MarfsConfig} {linkchk : Nat} {state state' : TraverseState}
  {pos : MarfsPosition} {path : List Char}

theorem shiftns_of_checked (hhead : path.head? ≠ some '/') (hnil : path ≠ [])
    (h : Checked mdal (config.deref pos.ns) path) :
    configShiftns mdal config pos path = .shifted pos path := by
  apply shiftns_of_done hhead
  obtain ⟨hfilt, hlook⟩ := not_or.1 h.unreserved
  rw [shiftStep, if_neg hnil, if_neg h.up, if_neg h.here, Option.not_isSome_iff_eq_none.1 hlook]
  exact if_neg hfilt

end Passes

/-! ## Another text at the current element -/

section WithText

variable {mdal : Mdal} {config : MarfsConfig} {linkchk : Nat} {state state' : TraverseState}
  {pos : MarfsPosition} {path text mid front : List Char}

def TraverseState.withText (state : TraverseState) (text : List Char) : TraverseState :=
  { state with
    relpath := state.relpath.take (state.relpath.length - state.pathelem.length) ++ text
    pathelem := text
    nonNS := false }

theorem withText_eq (front text : List Char) (hrel : state.relpath = front ++ state.pathelem) :
    state.withText text = ⟨state.pos, front ++ text, text, state.depth, false⟩ := by
  rw [TraverseState.withText, hrel, length_append, Nat.add_sub_cancel, take_left]

theorem traverseStep_up (state : TraverseState) (hup : firstElem '/' state.pathelem = ['.', '.'])
    (hdep : state.depth ≠ 0) :
    traverseStep mdal config linkchk state = .next
      { state with pathelem := nextElem '/' state.pathelem, depth := state.depth - 1, nonNS := false } := by
  have hne : state.pathelem ≠ [] := by
    intro hnil
    rw [hnil] at hup
    cases hup
  rw [traverseStep, if_neg hne, if_pos hup, if_neg hdep]

theorem Pass.suffix (hguard : Guarding mdal config state)
    (hno : ¬∃ pos content, MeetsLink mdal config linkchk state pos content)
    (h : Pass mdal config linkchk state state') : state'.pathelem <:+ nextElem '/' state.pathelem := by
  cases h with
  | up hup hdep => exact suffix_rfl
  | here hhere => exact suffix_rfl
  | shift hzero hhere hres hmov =>
    obtain ⟨hreach, -⟩ := shiftns_reaches hguard.head hres
    rcases Relation.ReflTransGen.cases_head hreach with heq | ⟨⟨pos₁, path₁⟩, hfst, hlater⟩
    · exact absurd (Prod.mk.inj heq).2.symm hmov
    · exact (shiftReaches_suffix hlater).trans (shiftStep_suffix hfst)
  | enter hent hstep =>
    obtain ⟨rfl, -⟩ := enterElem_subdir hent hno hstep
    exact suffix_rfl

theorem traverseStep_entered (hguard : Guarding mdal config state)
    (hrel : state.relpath = front ++ state.pathelem) (hent : enterPos mdal config state = some pos)
    (hoth : linkchk = 1 ∨ (linkchk > 1 ∧ ¬nextElem '/' state.pathelem = []) →
      mdal.stat pos.ctxt (state.relpath.take
        (state.relpath.length - (skipElem '/' state.pathelem).length)) = .other)
    (hmore : nextElem '/' state.pathelem ≠ []) (hhead : text.head? ≠ some '/') (hnil : text ≠ [])
    (hfst : firstElem '/' text = firstElem '/' state.pathelem) :
    traverseStep mdal config linkchk ⟨state.pos, front ++ text, text, state.depth, false⟩ =
      .next ⟨state.pos, front ++ text, nextElem '/' text, state.depth + 1, false⟩ := by
  obtain ⟨rfl, -, hup, hhere, hchecked⟩ := hguard.entered hent
  have hent' : enterPos mdal config ⟨state.pos, front ++ text, text, state.depth, false⟩ =
      some state.pos := by
    by_cases hzero : state.depth = 0
    · refine enterPos_of_stays _ hzero hhead hnil (shiftns_of_checked hhead hnil ?_)
      obtain ⟨hup, hhere, hunreserved⟩ := hchecked hzero
      rw [← hfst] at hup hhere hunreserved
      exact ⟨hup, hhere, hunreserved⟩
    · unfold enterPos
      dsimp only
      rw [hfst, if_neg (by rintro (h | h | h) <;> contradiction), if_neg fun h => hzero h.1]
  rw [traverseStep_enter hent', enterElem]
  dsimp only
  rw [take_firstElem, hfst]
  split
  · next hcheck =>
    have hstat := hoth (hcheck.imp_right fun h => ⟨h.1, hmore⟩)
    rw [hrel, take_firstElem] at hstat
    rw [hstat]
  · rfl

theorem shiftState_withText (hstat : mdal.StatByName)
    (habs : config.mountpoint = [] ∨ config.mountpoint.head? = some '/') (hguard : Guarding mdal config state)
    (hzero : state.depth = 0) (hres : configShiftns mdal config state.pos state.pathelem = .shifted pos path)
    (hmov : path ≠ state.pathelem) (hmid : state.pathelem = mid ++ path) (hrepl : Replaces text path)
    (hhere : firstElem '/' (mid ++ text) ≠ ['.'])
    (hnames : Verifies mdal config (state.pos, state.pathelem) path → config.mount = [] → NamesEntry text) :
    EndAlike Traversed.Alike (traverseStep mdal config linkchk)
      ⟨state.pos, front ++ (mid ++ text), mid ++ text, state.depth, false⟩
      ((shiftState state pos path).withText text) := by
  obtain ⟨hreach, -⟩ := shiftns_reaches hguard.head hres
  rw [hmid] at hreach
  have hshift : configShiftns mdal config state.pos (mid ++ text) = configShiftns mdal config pos text := by
    refine shiftns_replace habs hrepl (hmid ▸ hguard.head) (fun hverifies => hnames ?_) hreach
    rw [hmid]
    exact hverifies
  have hmidne : mid ≠ [] := by
    rintro rfl
    exact hmov hmid.symm
  -- the shift moves on, since it does up to the text
  have hlands : Lands mdal config linkchk ⟨state.pos, front ++ (mid ++ text), mid ++ text, 0, false⟩
      (configShiftns mdal config state.pos (mid ++ text)) := by
    refine lands_of_moves rfl rfl (append_ne_nil_of_left_ne_nil hmidne _) hhere fun pos' hstays => ?_
    rw [hshift] at hstays
    have hle := (shiftLoop_suffix hstays).length_le
    rw [length_append] at hle
    have hpos := length_pos_of_ne_nil hmidne
    omega
  have hroot : Lands mdal config linkchk ⟨pos.atDepth 0, text, text, 0, false⟩
      (configShiftns mdal config (pos.atDepth 0) text) := lands_fresh hstat rfl hrepl.head
  rw [hshift] at hlands
  rw [shiftns_atDepth, lands_atDepth] at hroot
  have hstate : (shiftState state pos path).withText text = ⟨pos.atDepth 0, text, text, 0, false⟩ := by
    rw [withText_eq [] text rfl, shiftState, hzero]
    rfl
  rw [hzero, hstate]
  exact hlands.endAlike hroot

theorem Pass.withText (hstat : mdal.StatByName)
    (habs : config.mountpoint = [] ∨ config.mountpoint.head? = some '/') (hguard : Guarding mdal config state)
    (hno : ¬∃ pos content, MeetsLink mdal config linkchk state pos content)
    (h : Pass mdal config linkchk state state') (hmid : state.pathelem = mid ++ state'.pathelem)
    (hrepl : Replaces text state'.pathelem)
    (hnames : state.depth = 0 → Verifies mdal config (state.pos, state.pathelem) state'.pathelem →
      config.mount = [] → NamesEntry text) :
    EndAlike Traversed.Alike (traverseStep mdal config linkchk) (state.withText (mid ++ text))
      (state'.withText text) := by
  obtain ⟨front, hrel, hcl, -, -⟩ := hguard.front
  have hsuf := h.suffix hguard hno
  rw [hmid] at hsuf
  obtain ⟨front', hrest, hfst, hoth, -⟩ := hrepl.next hsuf
  rw [← hmid] at hrest hfst
  rw [withText_eq front _ hrel]
  -- a pass to the next element
  have helem : ∀ {pos depth}, state' = ⟨pos, state.relpath, nextElem '/' state.pathelem, depth, false⟩ →
      traverseStep mdal config linkchk
        ⟨state.pos, front ++ (mid ++ text), mid ++ text, state.depth, false⟩ =
          .next ⟨pos, front ++ (mid ++ text), nextElem '/' (mid ++ text), depth, false⟩ →
      EndAlike Traversed.Alike (traverseStep mdal config linkchk)
        ⟨state.pos, front ++ (mid ++ text), mid ++ text, state.depth, false⟩ (state'.withText text) := by
    rintro pos depth rfl hpass
    obtain rfl : front' = [] := List.self_eq_append_left.1 hrest
    have hnext : nextElem '/' (mid ++ text) = text := hoth
    have hrel' : state.relpath = (front ++ mid) ++ nextElem '/' state.pathelem := by
      rw [append_assoc, ← hmid]
      exact hrel
    rw [withText_eq (front ++ mid) text hrel', append_assoc]
    rw [hnext] at hpass
    exact (EndAlike.next_left hpass).2 (EndAlike.refl Traversed.Alike.refl _)
  cases h with
  | up hup hdep =>
    rw [hup] at hfst
    exact helem rfl (traverseStep_up ⟨_, _, _, _, _⟩ hfst hdep)
  | here hhere =>
    rw [hhere] at hfst
    exact helem rfl (traverseStep_here hfst)
  | shift hzero hhere hres hmov =>
    rw [← hfst] at hhere
    exact shiftState_withText hstat habs hguard hzero hres hmov hmid hrepl hhere (hnames hzero)
  | enter hent hstep =>
    obtain ⟨hstate', hoth'⟩ := enterElem_subdir hent hno hstep
    obtain ⟨rfl, -⟩ := hguard.entered hent
    have hmore : nextElem '/' state.pathelem ≠ [] := by
      have hne := hrepl.rest_ne_nil
      rw [hstate'] at hne
      exact hne
    exact helem hstate' (traverseStep_entered hguard hrel hent hoth' hmore
      (hrepl.append (hmid ▸ hguard.head))
      (append_ne_nil_of_right_ne_nil _ hrepl.ne_nil) hfst)

end WithText

end Marfs.Config
