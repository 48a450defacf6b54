import Marfs.Config.TextRun

/-!
# The text of a link in a path

Where `config_traverse` meets a link it goes on with the link's text in place of the link.  A traversal of
the path with the text put in comes to the same object (`traverse_linkText`), if two things hold of the
links that are met.  An absolute text is parsed from the root, but the context is only renewed when
another namespace is left: in the root namespace the context must be the root's own.  And where MarFS is
mounted at the global root, a text right behind a verification of the mountpoint must lead to a name: the
verification accepts no path that begins with `..` or consists of `.` only (`validatemnt_exact_iff`).
-/

namespace Marfs.Config

open Marfs.Path LoopStep

/-! ## The path that is read -/

/-- The path with the content of a link in place of the current element, and for an absolute content in
place of all before it. -/
def replaceLink (full : List Char) (state : TraverseState) (content : List Char) : List Char :=
  let text := content ++ skipElem '/' state.pathelem
  if content.head? = some '/' then text else full.take (full.length - state.pathelem.length) ++ text

/-- The states of a traversal, each with the path that is read, all links that were met replaced; and
whether what is left of it stands right behind a verification of the mountpoint. -/
inductive Reads (mdal : Mdal) (config : MarfsConfig) (linkchk : Nat) (pos : MarfsPosition)
    (path : List Char) : TraverseState → List Char → Prop → Prop
  | entry {state : TraverseState} (hentry : traverseEntry config pos path = .next state) :
    Reads mdal config linkchk pos path state path (path.head? = some '/')
  | pass {state state' : TraverseState} {full : List Char} {verified : Prop}
    (hreads : Reads mdal config linkchk pos path state full verified)
    (hno : ¬∃ pos content, MeetsLink mdal config linkchk state pos content)
    (hstep : traverseStep mdal config linkchk state = .next state') :
    Reads mdal config linkchk pos path state' full
      (verified ∧ firstElem '/' state.pathelem = ['.'] ∨
        state.depth = 0 ∧ Verifies mdal config (state.pos, state.pathelem) state'.pathelem)
  | link {state state' : TraverseState} {full : List Char} {verified : Prop} {linkpos : MarfsPosition}
    {content : List Char} (hreads : Reads mdal config linkchk pos path state full verified)
    (hmeets : MeetsLink mdal config linkchk state linkpos content)
    (hstep : traverseStep mdal config linkchk state = .next state') :
    Reads mdal config linkchk pos path state' (replaceLink full state content)
      (verified ∨ content.head? = some '/')

def Traverses (mdal : Mdal) (config : MarfsConfig) (linkchk : Nat) (pos : MarfsPosition) (path : List Char)
    (result : Traversed) : Prop :=
  ∃ fuel, configTraverse mdal config fuel pos path linkchk = some result

def SameObject (mdal : Mdal) (config : MarfsConfig) (linkchk : Nat) (pos : MarfsPosition)
    (path path' : List Char) : Prop :=
  (∀ result, Traverses mdal config linkchk pos path result →
    ∃ result', Traverses mdal config linkchk pos path' result' ∧ result.Alike result') ∧
  ∀ result', Traverses mdal config linkchk pos path' result' →
    ∃ result, Traverses mdal config linkchk pos path result ∧ result.Alike result'

/-- At a link the code does what it is to do: for an absolute content the context is renewed or is the
root's own already, and a relative one leads to a name if it is to be verified at the global root. -/
structure LinkSafe (config : MarfsConfig) (state : TraverseState) (verified : Prop) (linkpos : MarfsPosition)
    (content : List Char) : Prop where
  absolute : content.head? = some '/' → linkpos.ns = .table config.rootns →
    linkpos.ctxt = some (.plain config.rootns [])
  relative : content.head? ≠ some '/' → config.mount = [] → verified →
    NamesEntry (content ++ skipElem '/' state.pathelem)

section Reading

variable {mdal : Mdal} {config : MarfsConfig} {linkchk : Nat} {pos linkpos : MarfsPosition}
  {path full content : List Char} {state state' start : TraverseState} {verified : Prop} {result : Traversed}

theorem Reads.reaches (h : Reads mdal config linkchk pos path state full verified) :
    ∃ start, traverseEntry config pos path = .next start ∧
      LoopStep.Reaches (traverseStep mdal config linkchk) start state := by
  induction h with
  | entry hent => exact ⟨_, hent, .refl⟩
  | pass _ _ hstep ih =>
    obtain ⟨start, hent, hreach⟩ := ih
    exact ⟨start, hent, hreach.tail hstep⟩
  | link _ _ hstep ih =>
    obtain ⟨start, hent, hreach⟩ := ih
    exact ⟨start, hent, hreach.tail hstep⟩

theorem traverses_next (hent : traverseEntry config pos path = .next start) :
    Traverses mdal config linkchk pos path result ↔
      Ends (traverseStep mdal config linkchk) start result := by
  rw [← iterate_iff_ends]
  unfold Traverses
  refine exists_congr fun fuel => ?_
  rw [configTraverse_eq_entry, hent, ← traverseLoop_eq_iterate]

theorem traverses_done {result' : Traversed} (hent : traverseEntry config pos path = .done result') :
    Traverses mdal config linkchk pos path result ↔ result' = result := by
  unfold Traverses
  constructor
  · rintro ⟨fuel, h⟩
    rw [configTraverse_eq_entry, hent] at h
    exact Option.some.inj h
  · rintro rfl
    exact ⟨0, by rw [configTraverse_eq_entry, hent]⟩

theorem Verifies.begins (habs : config.mountpoint = [] ∨ config.mountpoint.head? = some '/')
    (hmount : config.mount = []) (h : Verifies mdal config (pos, path) content) : BeginsWithName content := by
  obtain ⟨⟨pos₁, path₁⟩, pos₂, -, ⟨hup, hexits⟩, hnext⟩ := h
  have hnil : path₁ ≠ [] := by
    rintro rfl
    cases hup
  have hstep : shiftStep mdal config pos₁ path₁ = .next (pos₂, content) := hnext
  rw [shiftStep, if_neg hnil, if_pos hup, hexits] at hstep
  dsimp only at hstep
  split at hstep
  · cases hstep
  · next parsepath hvalid =>
    obtain ⟨-, rfl⟩ := Prod.mk.inj (LoopStep.next.inj hstep)
    rw [skipSep_of_head (validateLoop_head (nextElem_head _) hvalid)]
    exact validatemnt_begins habs hmount (fun _ => nextElem_head _) hvalid

end Reading

/-! ## The position at the root -/

section Root

variable {config : MarfsConfig} {pos : MarfsPosition} {path rest content : List Char} {state : TraverseState}

def MarfsPosition.RootsWell (config : MarfsConfig) (pos : MarfsPosition) : Prop :=
  pos.ns = .table config.rootns → pos.depth = 0 → pos.ctxt = some (.plain config.rootns [])

theorem MarfsPosition.RootsWell.establish (h : pos.RootsWell config) :
    (if pos.ns ≠ .table config.rootns ∨ pos.depth ≠ 0 then configEstablishposition config else pos) =
      configEstablishposition config := by
  split
  · rfl
  · next hroot =>
    obtain ⟨hns, hdep⟩ := not_or.1 hroot
    have hctxt := h (not_not.1 hns) (not_not.1 hdep)
    obtain ⟨ns, depth, ctxt⟩ := pos
    obtain rfl : ns = .table config.rootns := not_not.1 hns
    obtain rfl : depth = 0 := not_not.1 hdep
    obtain rfl : ctxt = some (.plain config.rootns []) := hctxt
    rfl

theorem traverseEntry_absolute (hpos : pos.RootsWell config) (hctxt : pos.ctxt ≠ none)
    (habs : path.head? = some '/') :
    traverseEntry config pos path =
      match configValidatemnt config none path with
      | none => .done .failed
      | some parsepath =>
        if parsepath = [] then .done (.done (configEstablishposition config) ['.'] 0)
        else .next ⟨configEstablishposition config, parsepath, parsepath, 0, false⟩ := by
  rw [traverseEntry, if_neg hctxt, if_pos habs]
  cases configValidatemnt config none path with
  | none => rfl
  | some parsepath =>
    dsimp only
    rw [hpos.establish]
    rfl

theorem traverseEntry_relative (hctxt : pos.ctxt ≠ none) (hrel : path.head? ≠ some '/') :
    traverseEntry config pos path = .next ⟨pos, path, path, pos.depth, false⟩ := by
  rw [traverseEntry, if_neg hctxt, if_neg hrel]

theorem ctxt_of_entry (h : traverseEntry config pos path = .next state) : pos.ctxt ≠ none := by
  intro hctxt
  rw [traverseEntry, if_pos hctxt] at h
  cases h

end Root

/-! ## The run of the path with the text put in -/

section Tracking

variable {mdal : Mdal} {config : MarfsConfig} {linkchk : Nat} {pos linkpos : MarfsPosition}
  {path full content : List Char} {state state' start : TraverseState} {verified : Prop}

/-- The invariant of the states: with any other text in place of what is left, the path that is read is
traversed like the text, from the state. -/
structure Tracked (mdal : Mdal) (config : MarfsConfig) (linkchk : Nat) (pos : MarfsPosition)
    (state : TraverseState) (full : List Char) (verified : Prop) : Prop where
  guarding : Guarding mdal config state
  names : verified → config.mount = [] → state.pathelem ≠ [] → NamesEntry state.pathelem
  text : state.pathelem ≠ [] → ∃ front, full = front ++ state.pathelem ∧
    ∀ text, Replaces text state.pathelem → (verified → config.mount = [] → NamesEntry text) →
      ∃ start, traverseEntry config pos (front ++ text) = .next start ∧
        EndAlike Traversed.Alike (traverseStep mdal config linkchk) start (state.withText text)

theorem Tracked.entry (hstat : mdal.StatByName)
    (habs : config.mountpoint = [] ∨ config.mountpoint.head? = some '/') (hpos : pos.RootsWell config)
    (h : traverseEntry config pos path = .next state) :
    Tracked mdal config linkchk pos state path (path.head? = some '/') := by
  have hctxt := ctxt_of_entry h
  by_cases hroot : path.head? = some '/'
  · rw [traverseEntry_absolute hpos hctxt hroot] at h
    cases hvalid : configValidatemnt config none path with
    | none =>
      rw [hvalid] at h
      cases h
    | some parsepath =>
      rw [hvalid] at h
      dsimp only at h
      split at h
      · cases h
      next hnil =>
      obtain rfl := LoopStep.next.inj h
      have hhead := validatemnt_head hvalid
      refine ⟨?_, fun _ hmount _ => ?_, fun _ => ?_⟩
      · exact .fresh hhead nofun
      · exact (validatemnt_begins habs hmount (fun hnone => absurd rfl hnone) hvalid).namesEntry hhead
      · obtain ⟨front, rfl⟩ := validatemnt_suffix hvalid
        refine ⟨front, rfl, fun text hrepl hnames => ?_⟩
        obtain ⟨text', hvalid', hdots, hne⟩ := validatemnt_replace habs hrepl hhead (hnames hroot) hvalid
        have hroot' : (front ++ text).head? = some '/' := by
          cases front with
          | nil => exact absurd hroot hhead
          | cons c front => exact hroot
        refine ⟨⟨configEstablishposition config, text', text', 0, false⟩, ?_, ?_⟩
        · rw [traverseEntry_absolute hpos hctxt hroot', hvalid']
          exact if_neg hne
        · -- both texts land at the same place
          have htext : Lands mdal config linkchk ⟨configEstablishposition config, text, text, 0, false⟩
              (configShiftns mdal config (configEstablishposition config) text) :=
            lands_fresh hstat rfl hrepl.head
          rw [shiftns_dots hrepl.head hdots] at htext
          have htext' : Lands mdal config linkchk ⟨configEstablishposition config, text', text', 0, false⟩
              (configShiftns mdal config (configEstablishposition config) text') :=
            lands_fresh hstat rfl (hdots.head hrepl.head)
          rw [withText_eq [] text rfl]
          exact htext'.endAlike htext
  · rw [traverseEntry_relative hctxt hroot] at h
    obtain rfl := LoopStep.next.inj h
    refine ⟨?_, fun habs' => absurd habs' hroot, fun _ => ⟨[], rfl, ?_⟩⟩
    · exact .fresh hroot nofun
    · intro text hrepl _
      refine ⟨_, traverseEntry_relative hctxt hrepl.head, ?_⟩
      rw [withText_eq [] text rfl]
      exact EndAlike.refl Traversed.Alike.refl _

theorem Tracked.pass (hstat : mdal.StatByName)
    (habs : config.mountpoint = [] ∨ config.mountpoint.head? = some '/')
    (h : Tracked mdal config linkchk pos state full verified)
    (hno : ¬∃ pos content, MeetsLink mdal config linkchk state pos content)
    (hstep : traverseStep mdal config linkchk state = .next state') :
    Tracked mdal config linkchk pos state' full
      (verified ∧ firstElem '/' state.pathelem = ['.'] ∨
        state.depth = 0 ∧ Verifies mdal config (state.pos, state.pathelem) state'.pathelem) := by
  obtain ⟨hguard, hnames, htext⟩ := h
  obtain ⟨hnil, hpass⟩ := traverseStep_pass hstep
  have hsuf := hpass.suffix hguard hno
  have hguard' := hguard.step hstep
  refine ⟨hguard', ?_, fun hnil' => ?_⟩
  · rintro (⟨hverif, hhere⟩ | ⟨-, hverifies⟩) hmount hnil'
    · have hent := hnames hverif hmount hnil
      rw [namesEntry_iff hguard.head hnil, if_pos hhere] at hent
      rw [traverseStep_here hhere] at hstep
      rw [← LoopStep.next.inj hstep]
      exact hent
    · exact (hverifies.begins habs hmount).namesEntry hguard'.head
  · obtain ⟨front, hfull, hreplace⟩ := htext hnil
    obtain ⟨mid, hmid⟩ := hsuf.trans (nextElem_suffix _)
    refine ⟨front ++ mid, by rw [List.append_assoc, hmid, hfull], fun text hrepl hent => ?_⟩
    have hrepl' : Replaces (mid ++ text) state.pathelem :=
      ⟨List.append_ne_nil_of_right_ne_nil _ hrepl.ne_nil,
        hrepl.append (hmid.symm ▸ hguard.head), hnil⟩
    have hent' : verified → config.mount = [] → NamesEntry (mid ++ text) := by
      intro hverif hmount
      have hold := hnames hverif hmount hnil
      rw [namesEntry_iff hguard.head hnil] at hold
      rw [← hmid] at hsuf
      obtain ⟨front', hrest, hfst, hoth, -⟩ := hrepl.next hsuf
      rw [hmid] at hfst hrest
      rw [namesEntry_iff hrepl'.head hrepl'.ne_nil, hfst]
      by_cases hhere : firstElem '/' state.pathelem = ['.']
      · rw [traverseStep_here hhere] at hstep
        have hpath : nextElem '/' state.pathelem = state'.pathelem :=
          congrArg TraverseState.pathelem (LoopStep.next.inj hstep)
        rw [hpath] at hrest
        obtain rfl := List.self_eq_append_left.1 hrest
        rw [if_pos hhere, hoth]
        exact hent (Or.inl ⟨hverif, hhere⟩) hmount
      · rw [if_neg hhere] at hold ⊢
        exact hold
    obtain ⟨start, hst, halk⟩ := hreplace (mid ++ text) hrepl' hent'
    refine ⟨start, by rw [List.append_assoc]; exact hst, ?_⟩
    refine EndAlike.trans Traversed.Alike.trans halk ?_
    exact hpass.withText hstat habs hguard hno hmid.symm hrepl fun hzero hverifies =>
      hent (Or.inr ⟨hzero, hverifies⟩)

theorem traverseStep_relativeLink (hguard : Guarding mdal config state)
    (hmeets : MeetsLink mdal config linkchk state linkpos content) (hne : content ≠ [])
    (hlen : content.length ≤ intMax) (hrel : content.head? ≠ some '/') :
    traverseStep mdal config linkchk state =
      .next (state.withText (content ++ skipElem '/' state.pathelem)) := by
  obtain ⟨rfl, -⟩ := hguard.entered hmeets.1
  rw [traverseStep_link hmeets, substituteLink, if_neg (not_or.2 ⟨hne, Nat.not_lt.2 hlen⟩)]
  exact if_neg hrel

theorem traverseStep_absoluteLink (hguard : Guarding mdal config state)
    (hmeets : MeetsLink mdal config linkchk state linkpos content) (hne : content ≠ [])
    (hlen : content.length ≤ intMax) (habs : content.head? = some '/')
    (hsafe : LinkSafe config state verified linkpos content) :
    traverseStep mdal config linkchk state =
      match configValidatemnt config none (content ++ skipElem '/' state.pathelem) with
      | none => .done .failed
      | some parsestart => .next ⟨configEstablishposition config, parsestart, parsestart, 0, false⟩ := by
  obtain ⟨rfl, -⟩ := hguard.entered hmeets.1
  rw [traverseStep_link hmeets, substituteLink, if_neg (not_or.2 ⟨hne, Nat.not_lt.2 hlen⟩), if_pos habs]
  cases configValidatemnt config none (content ++ skipElem '/' state.pathelem) with
  | none => rfl
  | some parsestart =>
    dsimp only
    by_cases hns : state.pos.ns = .table config.rootns
    · rw [if_neg (not_not.2 hns), hns, hsafe.absolute habs hns]
      rfl
    · rw [if_pos hns]
      rfl

theorem withText_withText (hguard : Guarding mdal config state) (text text' : List Char) :
    (state.withText text).withText text' = state.withText text' := by
  obtain ⟨front, hrel, -⟩ := hguard.front
  rw [withText_eq front text hrel, withText_eq front text' hrel]
  exact withText_eq front text' rfl

theorem content_fits (hmeets : MeetsLink mdal config linkchk state linkpos content)
    (hstep : traverseStep mdal config linkchk state = .next state') :
    content ≠ [] ∧ content.length ≤ intMax := by
  rw [traverseStep_link hmeets, substituteLink] at hstep
  split at hstep
  · cases hstep
  · next hfits =>
    obtain ⟨hne, hlen⟩ := not_or.1 hfits
    exact ⟨hne, Nat.le_of_not_lt hlen⟩

theorem replaces_content (hguard : Guarding mdal config state)
    (hmeets : MeetsLink mdal config linkchk state linkpos content) (hne : content ≠ [])
    (hrel : content.head? ≠ some '/') : Replaces (content ++ skipElem '/' state.pathelem) state.pathelem := by
  obtain ⟨-, hnil, -⟩ := hguard.entered hmeets.1
  refine ⟨List.append_ne_nil_of_left_ne_nil hne _, ?_, hnil⟩
  rw [List.head?_append_of_ne_nil _ hne]
  exact hrel

theorem replaceLink_relative {front : List Char} (hfull : full = front ++ state.pathelem)
    (hrel : content.head? ≠ some '/') :
    replaceLink full state content = front ++ (content ++ skipElem '/' state.pathelem) := by
  rw [replaceLink, if_neg hrel, hfull, List.length_append, Nat.add_sub_cancel, List.take_left]

theorem replaceLink_absolute (habs : content.head? = some '/') :
    replaceLink full state content = content ++ skipElem '/' state.pathelem := if_pos habs

theorem Tracked.link (hstat : mdal.StatByName)
    (hmount : config.mountpoint = [] ∨ config.mountpoint.head? = some '/') (hpos : pos.RootsWell config)
    (hctxt : pos.ctxt ≠ none) (h : Tracked mdal config linkchk pos state full verified)
    (hmeets : MeetsLink mdal config linkchk state linkpos content)
    (hsafe : LinkSafe config state verified linkpos content)
    (hstep : traverseStep mdal config linkchk state = .next state') :
    Tracked mdal config linkchk pos state' (replaceLink full state content)
      (verified ∨ content.head? = some '/') := by
  obtain ⟨hguard, hnames, htext⟩ := h
  have hguard' := hguard.step hstep
  obtain ⟨hne, hlen⟩ := content_fits hmeets hstep
  by_cases habs : content.head? = some '/'
  · rw [traverseStep_absoluteLink hguard hmeets hne hlen habs hsafe] at hstep
    have hroot : (content ++ skipElem '/' state.pathelem).head? = some '/' := by
      rw [List.head?_append_of_ne_nil _ hne, habs]
    have hent := traverseEntry_absolute hpos hctxt hroot
    rw [replaceLink_absolute habs]
    cases hvalid : configValidatemnt config none (content ++ skipElem '/' state.pathelem) with
    | none =>
      rw [hvalid] at hstep
      cases hstep
    | some parsestart =>
      rw [hvalid] at hstep hent
      obtain rfl := LoopStep.next.inj hstep
      by_cases hnil : parsestart = []
      · exact ⟨hguard', fun _ _ hnil' => absurd hnil hnil', fun hnil' => absurd hnil hnil'⟩
      · -- the state in which the traversal of the text begins
        dsimp only at hent
        rw [if_neg hnil] at hent
        have htrk : Tracked mdal config linkchk pos _ _ _ := Tracked.entry hstat hmount hpos hent
        obtain ⟨-, hnames, htext⟩ := htrk
        refine ⟨hguard', fun _ => hnames hroot, fun hnil => ?_⟩
        obtain ⟨front, hfull, htext⟩ := htext hnil
        exact ⟨front, hfull, fun text hrepl hent => htext text hrepl fun _ => hent (Or.inr habs)⟩
  · rw [traverseStep_relativeLink hguard hmeets hne hlen habs] at hstep
    obtain rfl := LoopStep.next.inj hstep
    have hrepl := replaces_content hguard hmeets hne habs
    refine ⟨hguard', ?_, fun _ => ?_⟩
    · rintro (hverif | habs') hglob -
      · exact hsafe.relative habs hglob hverif
      · exact absurd habs' habs
    · obtain ⟨front, hfull, htext⟩ := htext hrepl.rest_ne_nil
      refine ⟨front, replaceLink_relative hfull habs, fun text hrepl' hent => ?_⟩
      obtain ⟨start, hst, halk⟩ := htext text ⟨hrepl'.ne_nil, hrepl'.head, hrepl.rest_ne_nil⟩
        fun hverif => hent (Or.inl hverif)
      refine ⟨start, hst, ?_⟩
      rw [withText_withText hguard]
      exact halk

end Tracking

/-! ## The result -/

section Result

variable {mdal : Mdal} {config : MarfsConfig} {linkchk : Nat} {pos linkpos : MarfsPosition}
  {path path' full content : List Char} {state start start' : TraverseState} {verified : Prop}
  {result result' : Traversed}

def LinksSafe (mdal : Mdal) (config : MarfsConfig) (linkchk : Nat) (pos : MarfsPosition)
    (path : List Char) : Prop :=
  ∀ {state : TraverseState} {full content : List Char} {verified : Prop} {linkpos : MarfsPosition},
    Reads mdal config linkchk pos path state full verified →
      MeetsLink mdal config linkchk state linkpos content → LinkSafe config state verified linkpos content

theorem Reads.tracked (hstat : mdal.StatByName)
    (hmount : config.mountpoint = [] ∨ config.mountpoint.head? = some '/') (hpos : pos.RootsWell config)
    (hsafe : LinksSafe mdal config linkchk pos path)
    (h : Reads mdal config linkchk pos path state full verified) :
    Tracked mdal config linkchk pos state full verified := by
  induction h with
  | entry hent => exact .entry hstat hmount hpos hent
  | pass _ hno hstep ih => exact ih.pass hstat hmount hno hstep
  | link hreads hmeets hstep ih =>
    obtain ⟨start, hent, -⟩ := hreads.reaches
    exact ih.link hstat hmount hpos (ctxt_of_entry hent) hmeets (hsafe hreads hmeets) hstep

theorem sameObject_of_endAlike (hent : traverseEntry config pos path = .next start)
    (hent' : traverseEntry config pos path' = .next start')
    (h : EndAlike Traversed.Alike (traverseStep mdal config linkchk) start start') :
    SameObject mdal config linkchk pos path path' := by
  unfold SameObject
  simp only [traverses_next hent, traverses_next hent']
  exact h

theorem sameObject_of_done (hent : traverseEntry config pos path = .next start)
    (hends : Ends (traverseStep mdal config linkchk) start result)
    (hent' : traverseEntry config pos path' = .done result') (halk : result.Alike result') :
    SameObject mdal config linkchk pos path path' := by
  unfold SameObject
  simp only [traverses_next hent, traverses_done hent']
  constructor
  · intro other hoth
    rw [hoth.unique hends]
    exact ⟨result', rfl, halk⟩
  · rintro _ rfl
    exact ⟨result, hends, halk⟩

/-- Wherever a traversal meets a link, the path with the link's text put in leads to the same object, if
at all links that are met the code does what it is to do. -/
theorem traverse_linkText (hstat : mdal.StatByName)
    (hmount : config.mountpoint = [] ∨ config.mountpoint.head? = some '/') (hpos : pos.RootsWell config)
    (hsafe : LinksSafe mdal config linkchk pos path)
    (hreads : Reads mdal config linkchk pos path state full verified)
    (hmeets : MeetsLink mdal config linkchk state linkpos content) (hne : content ≠ [])
    (hlength : content.length ≤ intMax) :
    SameObject mdal config linkchk pos path (replaceLink full state content) := by
  obtain ⟨hguarding, -, htext⟩ := hreads.tracked hstat hmount hpos hsafe
  obtain ⟨start, hentry, hreach⟩ := hreads.reaches
  have hlink := hsafe hreads hmeets
  by_cases habs : content.head? = some '/'
  · have hroot : (content ++ skipElem '/' state.pathelem).head? = some '/' := by
      rw [List.head?_append_of_ne_nil _ hne, habs]
    have hentry' := traverseEntry_absolute hpos (ctxt_of_entry hentry) hroot
    have hstep := traverseStep_absoluteLink hguarding hmeets hne hlength habs hlink
    rw [replaceLink_absolute habs]
    cases hvalid : configValidatemnt config none (content ++ skipElem '/' state.pathelem) with
    | none =>
      rw [hvalid] at hstep hentry'
      have hends := (Ends.of_reaches hreach).2 ((Ends.of_done hstep).2 rfl)
      exact sameObject_of_done hentry hends hentry' .failed
    | some parsestart =>
      rw [hvalid] at hstep hentry'
      dsimp only at hstep hentry'
      by_cases hnil : parsestart = []
      · -- the text is the mountpoint's own path
        subst hnil
        rw [if_pos rfl] at hentry'
        have hdone : traverseStep mdal config linkchk ⟨configEstablishposition config, [], [], 0, false⟩ =
            .done (.done (configEstablishposition config) [] 0) := rfl
        have hends := (Ends.of_reaches hreach).2 ((Ends.of_next hstep).2 ((Ends.of_done hdone).2 rfl))
        refine sameObject_of_done hentry hends hentry' (.done ?_)
        decide
      · rw [if_neg hnil] at hentry'
        refine sameObject_of_endAlike hentry hentry' ((EndAlike.reaches_left hreach).2 ?_)
        exact (EndAlike.next_left hstep).2 (EndAlike.refl Traversed.Alike.refl _)
  · have hreplaces := replaces_content hguarding hmeets hne habs
    obtain ⟨front, hfull, htext⟩ := htext hreplaces.rest_ne_nil
    obtain ⟨start', hentry', halike⟩ := htext _ hreplaces fun hverified hglobal =>
      hlink.relative habs hglobal hverified
    rw [replaceLink_relative hfull habs]
    refine sameObject_of_endAlike hentry hentry' ((EndAlike.reaches_left hreach).2 ?_)
    have hstep := traverseStep_relativeLink hguarding hmeets hne hlength habs
    exact (EndAlike.next_left hstep).2 (EndAlike.symm Traversed.Alike.symm halike)

theorem Traverses.unique (h : Traverses mdal config linkchk pos path result)
    (h' : Traverses mdal config linkchk pos path result') : result = result' := by
  cases hent : traverseEntry config pos path with
  | next start => exact ((traverses_next hent).1 h).unique ((traverses_next hent).1 h')
  | done other => exact ((traverses_done hent).1 h).symm.trans ((traverses_done hent).1 h')

end Result

/-! ### One link -/

def oneLink (content : List Char) : Mdal where
  pathfilter _ _ := false
  stat _ path := if named '/' ['.'] path = [['l']] then .link content else .other

theorem oneLink_statByName (content : List Char) : (oneLink content).StatByName := by
  intro ctxt front front' name hfront hfront' _ _ hnames _ _
  unfold oneLink
  dsimp only
  rw [hfront.named_append, hfront'.named_append, hnames]

theorem oneLink_content {config : MarfsConfig} {linkchk : Nat} {state : TraverseState}
    {pos : MarfsPosition} {content content' : List Char}
    (h : MeetsLink (oneLink content) config linkchk state pos content') : content' = content := by
  have hstat := h.2.2
  unfold oneLink at hstat
  dsimp only at hstat
  split at hstat
  · exact (LinkStat.link.inj hstat).symm
  · cases hstat

def inDirectory : MarfsPosition := ⟨.table 0, 1, some (.plain 0 [['d']])⟩

/-- A relative link in a working directory leads to an entry beside the directory. -/
theorem relativeLink_transparent :
    SameObject (oneLink "../x".toList) bareConfig 2 inDirectory "l/y".toList "../x/y".toList := by
  have hreads : Reads (oneLink "../x".toList) bareConfig 2 inDirectory "l/y".toList
      ⟨inDirectory, "l/y".toList, "l/y".toList, 1, false⟩ _ _ := .entry rfl
  have hmeets : MeetsLink (oneLink "../x".toList) bareConfig 2
      ⟨inDirectory, "l/y".toList, "l/y".toList, 1, false⟩ inDirectory "../x".toList :=
    ⟨by decide +kernel, Or.inr ⟨by decide, by decide +kernel⟩, by decide +kernel⟩
  have hsafe : LinksSafe (oneLink "../x".toList) bareConfig 2 inDirectory "l/y".toList := by
    intro state full content verified linkpos _ hmeets
    obtain rfl := oneLink_content hmeets
    exact ⟨fun habs => absurd habs (by decide +kernel), fun _ hglobal => absurd hglobal (by decide +kernel)⟩
  have htext : replaceLink "l/y".toList ⟨inDirectory, "l/y".toList, "l/y".toList, 1, false⟩ "../x".toList =
      "../x/y".toList := by decide +kernel
  rw [← htext]
  exact traverse_linkText (oneLink_statByName _) (Or.inr rfl) nofun hsafe hreads hmeets
    (by decide +kernel) (by decide +kernel)

/-- An absolute link in a working directory of the root: the path is read in that directory. -/
theorem absoluteLink_opaque :
    (oneLink "/m/x".toList).StatByName ∧ inDirectory.RootsWell bareConfig ∧
      Reads (oneLink "/m/x".toList) bareConfig 1 inDirectory ['l'] ⟨inDirectory, ['l'], ['l'], 1, false⟩ ['l']
        ((['l'] : List Char).head? = some '/') ∧
      MeetsLink (oneLink "/m/x".toList) bareConfig 1 ⟨inDirectory, ['l'], ['l'], 1, false⟩ inDirectory
        "/m/x".toList ∧
      ¬SameObject (oneLink "/m/x".toList) bareConfig 1 inDirectory ['l']
        (replaceLink ['l'] ⟨inDirectory, ['l'], ['l'], 1, false⟩ "/m/x".toList) := by
  refine ⟨oneLink_statByName _, nofun, .entry rfl, ?_, fun hsame => ?_⟩
  · refine ⟨by decide +kernel, Or.inl rfl, by decide +kernel⟩
  · have hlink : Traverses (oneLink "/m/x".toList) bareConfig 1 inDirectory ['l']
        (.done ⟨.table 0, 0, some (.plain 0 [['d']])⟩ ['x'] 1) := ⟨3, by decide +kernel⟩
    have htext : Traverses (oneLink "/m/x".toList) bareConfig 1 inDirectory
        (replaceLink ['l'] ⟨inDirectory, ['l'], ['l'], 1, false⟩ "/m/x".toList)
        (.done ⟨.table 0, 0, some (.plain 0 [])⟩ ['x'] 1) := ⟨3, by decide +kernel⟩
    obtain ⟨result, hresult, halike⟩ := hsame.1 _ hlink
    rw [hresult.unique htext] at halike
    cases halike

end Marfs.Config
