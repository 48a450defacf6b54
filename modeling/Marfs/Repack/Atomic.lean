import Marfs.Repack.Marker

/-!
# A repack is all or nothing

Wherever the process is stopped, the references are in one of the phases; and a cleanup that is stopped
leaves them in one, too.  One that gets to its end reverts the repack, or completes it.
-/

namespace Marfs.Repack

open Config Cstring Hash Machine Mdal Tagging

variable {identifier : List Char → Id} {ms : Metascheme identifier} {c : Repacking ms}
  {fin : List Char} {s : Mdal.Sys}

/-! ## The end of a copy -/

variable {ftag head origftag : Ftag} {tags : List Ftag} {place : Option Ftag} {r : References}
  {ftagstr path newpath : List Char} {file : Nat}

theorem wp_takeOver (h : Completing c ftag.toStr s.references)
    (hact : s.references.xattrs c.file .trepack = some ftag.toStr) (hnew : NewTag ms c.newpath ftag) :
    Op.wp (takeOver c.rmarkstr c.path c.file ftag)
      (fun _ s' => Completed c ftag.toStr s'.references)
      (fun s' => Completing c ftag.toStr s'.references) s := by
  have hswitched := h.switch hact
  have htaken := hswitched.take (by simp)
  rw [takeOver, Op.wp_bind]
  refine wp_putftag hnew.majorversion hnew.minorversion (fun _ => h) fun _ => ?_
  rw [Op.wp_bind]
  refine (wp_fremovexattr ?_).2 ⟨fun _ => hswitched, fun _ => ?_⟩
  · simp [hact]
  rw [Op.wp_bind, Op.wp_check]
  refine ⟨fun _ => ?_, nofun⟩
  rw [Op.wp_bind]
  refine (wp_renameref ?_).2 ⟨fun _ => htaken, fun _ => ?_⟩
  · exact Option.isSome_of_mem htaken.rmarkstr
  rw [Op.wp_check]
  refine ⟨fun _ => htaken.rename ?_, nofun⟩
  simp

theorem wp_exchange (h : Linked c s.references) (hact : s.references.xattrs c.file .trepack = some ftag.toStr)
    (hback : c.origrefpath = c.path) (hnew : NewTag ms c.newpath ftag) :
    Op.wp (exchange c.rmarkstr c.path c.ftagstr c.marker c.file ftag)
      (fun _ s' => Completed c ftag.toStr s'.references)
      (fun s' => Linked c s'.references ∨ Completing c ftag.toStr s'.references) s := by
  have hreal := h.complete hact hback
  have hact' : (s.references.setXattr c.marker .ftag (some c.ftagstr)).xattrs c.file .trepack =
      some ftag.toStr := by simp [hact, c.marker_ne_file.symm]
  rw [exchange, Op.wp_bind]
  refine (wp_fsetxattr ?_).2 ⟨fun _ => .inl h, fun _ => ?_⟩
  · rw [h.unset]
    rfl
  rw [Op.wp_bind, Op.wp_check]
  refine ⟨fun _ => ?_, nofun⟩
  rw [Op.wp_bind, fsetxattr, wp_step]
  refine ⟨fun _ => .inr hreal, fun _ => ?_⟩
  -- the attribute may be there already
  split
  · refine Op.wp_mono (wp_takeOver (hreal.keep _) ?_ hnew) (fun _ _ h' => h') fun _ h' => .inr h'
    simpa using hact'
  · exact Op.wp_mono (wp_takeOver hreal hact' hnew) (fun _ _ h' => h') fun _ h' => .inr h'

/-- `completefile` completes the repack, or is stopped before; it cannot go on if it does not find the
marker. -/
theorem wp_completefile (base : Ftag) (h : Linked c s.references)
    (hnew : NewTag ms c.newpath (Datastream.Sys.completed ftag)) :
    Op.wp (completefile ms base c.file ftag)
      (fun _ s' => Completed c (Datastream.Sys.completed ftag).toStr s'.references)
      (fun s' => Linked c s'.references ∨
        Completing c (Datastream.Sys.completed ftag).toStr s'.references) s := by
  rw [completefile, Op.wp_bind, Op.wp_check]
  refine ⟨fun _ => ?_, fun _ => .inl h⟩
  rw [Op.wp_bind]
  refine wp_putftag hnew.majorversion hnew.minorversion (fun _ => .inl h) fun _ => ?_
  have hwrit := h.write hnew.isNew
  rw [swapRepacked, Op.wp_bind]
  refine wp_getftag base ?_ c.reads (fun _ => .inl hwrit) fun _ => ?_
  · exact hwrit.ftag
  rw [Op.wp_bind, Op.wp_ofOption_some c.back, Op.wp_bind, Op.wp_ofOption_some c.found, Op.wp_bind,
    wp_openref]
  refine ⟨fun _ => .inl hwrit, fun _ => ?_⟩
  rw [Op.wp_bind]
  by_cases hback : c.origrefpath = c.path
  · have hfound : c.foundstr = c.rmarkstr := by
      have hmarks := c.found
      rw [hback, c.rmark] at hmarks
      exact (Option.some.inj hmarks).symm
    rw [hfound, hback]
    apply (Op.wp_ofOption_some hwrit.rmarkstr).2
    refine wp_exchange hwrit ?_ hback hnew
    simp
  · rw [Op.wp_ofOption]
    refine ⟨fun marker hmark => ?_, fun _ => .inl hwrit⟩
    cases (hwrit.other hback).symm.trans hmark

/-! ## Cleanup -/

section Cleanup

variable {E : Mdal.Sys → Prop} {Q : Bool → Mdal.Sys → Prop}

theorem wp_deleteMarker (h : Marked c s.references) :
    Op.wp (deleteMarker c.rmarkstr) (fun reverted s' => reverted = true ∧ Reverted c s'.references)
      (fun s' => Marked c s'.references ∧ s.steps = 0) s := by
  rw [deleteMarker, Op.wp_bind]
  refine (wp_unlinkref ?_).2 ⟨fun hsteps => ⟨h, hsteps⟩, fun _ => ?_⟩
  · exact Option.isSome_of_mem h.rmarkstr
  rw [Op.wp_bind, Op.wp_check]
  exact ⟨fun _ => Op.wp_pure.2 ⟨rfl, h.delete⟩, nofun⟩

theorem wp_placeMarker {refpath renametgt : List Char} (retval : Bool) {marker : Nat}
    (hrefpath : s.references.refs refpath = some marker) (hstop : s.steps = 0 → E s)
    (hgo : s.steps ≠ 0 → Q retval (s.after (.renameref refpath renametgt)
      (s.references.rename refpath renametgt))) : Op.wp (placeMarker refpath renametgt retval) Q E s := by
  rw [placeMarker, Op.wp_bind]
  refine (wp_renameref (Option.isSome_of_mem hrefpath)).2 ⟨hstop, fun hsteps => ?_⟩
  rw [Op.wp_bind, Op.wp_check]
  exact ⟨fun _ => Op.wp_pure.2 (hgo hsteps), nofun⟩

theorem wp_keepActive (h : Linked c s.references) :
    Op.wp (keepActive c.marker c.file (s.references.xattrs c.file .trepack))
      (fun _ s' => Linked c s'.references ∧ s'.references.xattrs c.file .trepack = none ∧
        s.steps ≤ s'.steps + 2)
      (fun s' => Linked c s'.references ∧ s.steps < 2) s := by
  cases hact : s.references.xattrs c.file .trepack with
  | none => exact Op.wp_pure.2 ⟨h, hact, Nat.le_add_right _ _⟩
  | some active =>
    have hkept := h.keep (h.active active hact)
    rw [keepActive, Op.wp_bind]
    refine (wp_fsetxattr ?_).2 ⟨fun hsteps => ⟨h, by omega⟩, fun _ => ?_⟩
    · obtain ⟨str, hstr, -⟩ := h.tgt
      rw [hstr]
      rfl
    rw [Op.wp_bind, Op.wp_check]
    refine ⟨fun _ => ?_, nofun⟩
    rw [Op.wp_bind]
    refine (wp_fremovexattr ?_).2 ⟨fun hsteps => ⟨hkept, ?_⟩, fun hsteps => ?_⟩
    · simp [hact, c.marker_ne_file.symm]
    · rw [Sys.steps_after] at hsteps
      omega
    · rw [Op.wp_check]
      refine ⟨fun _ => ⟨hkept.take, ?_, ?_⟩, nofun⟩
      · simp
      · simp only [Sys.steps_after] at hsteps ⊢
        omega

variable {tgtftagstr : List Char}

/-- The marker gets the FTAG of the copy that is given up, and takes its place. -/
theorem wp_revert (h : Linked c s.references) (hnew : c.IsNew tgtftagstr) :
    Op.wp (revert c.rmarkstr c.marker c.file tgtftagstr (s.references.xattrs c.file .trepack)
        c.newpath)
      (fun reverted s' => reverted = true ∧ Reverted c s'.references)
      (fun s' => (Linked c s'.references ∨ Reverting c s'.references) ∧ s.steps < 4) s := by
  have hreal : c.IsNew ((s.references.xattrs c.file .trepack).getD tgtftagstr) := by
    cases hact : s.references.xattrs c.file .trepack with
    | none => exact hnew
    | some active => exact h.active active hact
  rw [revert, Op.wp_bind]
  refine Op.wp_mono (wp_keepActive h) (fun _ s₁ hkept => ?_) fun s₁ hstop =>
    ⟨.inl hstop.1, by omega⟩
  obtain ⟨hlinked, hact, hsteps₁⟩ := hkept
  have hreverting := hlinked.revert hact hreal
  rw [Op.wp_bind]
  refine (wp_fsetxattr ?_).2 ⟨fun hsteps => ⟨.inl hlinked, by omega⟩, fun _ => ?_⟩
  · rw [hlinked.unset]
    rfl
  rw [Op.wp_bind, Op.wp_check]
  refine ⟨fun _ => ?_, nofun⟩
  refine wp_placeMarker true hreverting.rmarkstr (fun hsteps => ⟨.inr hreverting, ?_⟩) fun _ => ?_
  · rw [Sys.steps_after] at hsteps
    omega
  · exact ⟨rfl, hreverting.rename⟩

theorem wp_useActive (h : Completing c fin s.references) :
    Op.wp (useActive c.file (s.references.xattrs c.file .trepack))
      (fun _ s' => Completing c fin s'.references ∧ s'.references.xattrs c.file .ftag = some fin ∧
        s.steps ≤ s'.steps + 2)
      (fun s' => Completing c fin s'.references ∧ s.steps < 2) s := by
  rcases h.active with hact | ⟨hact, hftag⟩
  · have hswitched := h.switch hact
    have htaken := hswitched.take (by simp)
    rw [hact, useActive, Op.wp_bind]
    refine (wp_fsetxattr ?_).2 ⟨fun hsteps => ⟨h, by omega⟩, fun _ => ?_⟩
    · obtain ⟨str, hstr⟩ := h.ftag
      rw [hstr]
      rfl
    rw [Op.wp_bind, Op.wp_check]
    refine ⟨fun _ => ?_, nofun⟩
    rw [Op.wp_bind]
    refine (wp_fremovexattr ?_).2 ⟨fun hsteps => ⟨hswitched, ?_⟩, fun hsteps => ?_⟩
    · simp [hact]
    · rw [Sys.steps_after] at hsteps
      omega
    · rw [Op.wp_check]
      refine ⟨fun _ => ⟨htaken, ?_, ?_⟩, nofun⟩
      · simp
      · simp only [Sys.steps_after] at hsteps ⊢
        omega
  · rw [hact, useActive]
    exact Op.wp_pure.2 ⟨h, hftag, Nat.le_add_right _ _⟩

theorem wp_proceed (base : Ftag) (h : Completing c fin s.references) :
    Op.wp (proceed ms base c.rmarkstr c.file c.ftagstr (s.references.xattrs c.file .trepack)
        c.newpath)
      (fun reverted s' => reverted = false ∧ Completed c fin s'.references)
      (fun s' => Completing c fin s'.references ∧ s.steps < 3) s := by
  have hback : datastreamGenrpath identifier c.origftag ms.reftable = some c.path :=
    h.back ▸ c.back
  rw [proceed, Op.wp_bind, Op.wp_ofOption_some (c.reads base), Op.wp_bind,
    Op.wp_ofOption_some hback, Op.wp_bind]
  refine Op.wp_mono (wp_useActive h) (fun _ s₁ hused => ?_) fun s₁ hstop => ⟨hstop.1, by omega⟩
  obtain ⟨hcompleting, hftag, hsteps₁⟩ := hused
  refine wp_placeMarker _ hcompleting.rmarkstr (fun hsteps => ⟨hcompleting, by omega⟩) fun _ => ?_
  exact ⟨decide_eq_false c.newpath_ne_path, hcompleting.rename hftag⟩

theorem wp_proceed_reverting (base : Ftag) (h : Reverting c s.references) {realftagstr : List Char}
    (hreal : s.references.xattrs c.marker .ftag = some realftagstr) :
    Op.wp (proceed ms base c.rmarkstr c.file realftagstr (s.references.xattrs c.file .trepack)
        c.newpath)
      (fun reverted s' => reverted = true ∧ Reverted c s'.references)
      (fun s' => Reverting c s'.references ∧ s.steps = 0) s := by
  obtain ⟨str, hstr, ftag, hreads, hnewpath⟩ := h.real
  obtain rfl := Option.some.inj (hreal.symm.trans hstr)
  rw [proceed, Op.wp_bind, Op.wp_ofOption_some (hreads base), Op.wp_bind,
    Op.wp_ofOption_some hnewpath, Op.wp_bind, h.active, useActive, Op.wp_pure]
  refine wp_placeMarker _ h.rmarkstr (fun hsteps => ⟨h, hsteps⟩) fun _ => ?_
  exact ⟨decide_eq_true rfl, h.rename⟩

/-- What a cleanup comes to: a repack that is reverted or completed.  It fails only where it is stopped,
or has nothing to do. -/
def CleanedUp (c : Repacking ms) (fin : List Char) (reverted : Bool) (r : References) : Prop :=
  if reverted then Reverted c r else Completed c fin r

theorem wp_cleanupTarget (base base' : Ftag) (hnewpath : s.references.refs c.newpath = some c.file)
    (hnew : c.IsNew tgtftagstr) (hact : s.references.xattrs c.file .trepack ≠ some [])
    (hstop : ∀ s', s'.references = s.references → s.steps < 3 → E s')
    (hgo : ∀ s', s'.references = s.references → s.steps ≤ s'.steps + 3 →
      Op.wp (match s.references.xattrs c.marker .ftag with
        | none => revert c.rmarkstr c.marker c.file tgtftagstr
            (s'.references.xattrs c.file .trepack) c.newpath
        | some realftagstr => proceed ms base' c.rmarkstr c.file realftagstr
            (s'.references.xattrs c.file .trepack) c.newpath) Q E s') :
    Op.wp (cleanupTarget ms base base' c.rmarkstr c.marker tgtftagstr) Q E s := by
  obtain ⟨ftag, hreads, hgenrpath⟩ := hnew
  rw [cleanupTarget, Op.wp_bind, Op.wp_ofOption_some (hreads base), Op.wp_bind,
    Op.wp_ofOption_some hgenrpath, Op.wp_bind, wp_openref]
  refine ⟨fun hsteps => hstop s rfl (by omega), fun _ => ?_⟩
  rw [hnewpath]
  dsimp only
  rw [Op.wp_bind, wp_fgetxattr]
  refine ⟨fun hsteps => hstop _ rfl ?_, fun _ => ?_⟩
  · rw [Sys.steps_after] at hsteps
    omega
  rw [Op.wp_bind, Op.wp_check]
  refine ⟨fun _ => ?_, fun hfalse => absurd hact (of_decide_eq_false hfalse)⟩
  rw [Op.wp_bind, wp_fgetxattr]
  refine ⟨fun hsteps => hstop _ rfl ?_, fun _ => ?_⟩
  · simp only [Sys.steps_after] at hsteps
    omega
  · refine hgo (Sys.after (Sys.after _ _ _) _ _) rfl ?_
    simp only [Sys.steps_after]
    omega

theorem wp_cleanup_waiting (base base' : Ftag) (h : Waiting c s.references)
    (hstop : ∀ s', s'.references = s.references → s.steps < 3 → E s')
    (hgo : ∀ s', s'.references = s.references → s.steps ≤ s'.steps + 3 →
      Op.wp (match s.references.xattrs c.marker .trepack with
        | none => deleteMarker c.rmarkstr
        | some tgtftagstr => cleanupTarget ms base base' c.rmarkstr c.marker tgtftagstr) Q E s') :
    Op.wp (datastreamRepackCleanup ms base base' c.rmarkstr) Q E s := by
  have hthere := Option.isSome_of_mem h.rmarkstr
  rw [datastreamRepackCleanup, Op.wp_bind, wp_statref]
  refine ⟨fun hsteps => hstop s rfl (by omega), fun _ => ?_⟩
  rw [Op.wp_bind, Op.wp_check]
  refine ⟨fun _ => ?_, fun hfalse => nomatch hthere.symm.trans hfalse⟩
  rw [Op.wp_bind, wp_openref]
  refine ⟨fun hsteps => hstop _ rfl ?_, fun _ => ?_⟩
  · rw [Sys.steps_after] at hsteps
    omega
  rw [Op.wp_bind]
  apply (Op.wp_ofOption_some h.rmarkstr).2
  rw [Op.wp_bind, wp_fgetxattr]
  refine ⟨fun hsteps => hstop _ rfl ?_, fun _ => ?_⟩
  · simp only [Sys.steps_after] at hsteps
    omega
  · refine hgo (Sys.after (Sys.after _ _ _) _ _) rfl ?_
    simp only [Sys.steps_after]
    omega

/-- How a cleanup ends: it fails only if it is stopped, or has nothing to do. -/
def Ends (c : Repacking ms) (fin : List Char) (steps : Nat) (r : References) : Prop :=
  Phase c fin r ∧ (10 ≤ steps → Reverted c r ∨ Completed c fin r)

theorem Phase.stopped (h : Phase c fin s.references) {steps : Nat} (hsteps : steps < 10) :
    Ends c fin steps s.references := ⟨h, fun hle => absurd hle (by omega)⟩

theorem wp_cleanup_marked (base base' : Ftag) (h : Marked c s.references) :
    Op.wp (datastreamRepackCleanup ms base base' c.rmarkstr)
      (fun reverted s' => CleanedUp c fin reverted s'.references)
      (fun s' => Ends c fin s.steps s'.references) s := by
  have hdelete : ∀ s', s'.references = s.references → s.steps ≤ s'.steps + 4 →
      Op.wp (deleteMarker c.rmarkstr) (fun reverted s' => CleanedUp c fin reverted s'.references)
        (fun s' => Ends c fin s.steps s'.references) s' := by
    intro s' hrefs hsteps
    refine Op.wp_mono (wp_deleteMarker (hrefs ▸ h)) (fun reverted s'' hend => ?_)
      fun s'' hstop => (Phase.marked hstop.1).stopped (by omega)
    rw [CleanedUp, if_pos hend.1]
    exact hend.2
  refine wp_cleanup_waiting base base' h.toWaiting
    (fun s' hrefs hsteps => (Phase.marked (hrefs ▸ h)).stopped (by omega)) fun s' hrefs hsteps => ?_
  cases htgt : s.references.xattrs c.marker .trepack with
  | none => exact hdelete s' hrefs (by omega)
  | some tgtftagstr =>
    obtain ⟨ftag, hreads, hgenrpath⟩ := h.tgt tgtftagstr htgt
    dsimp only
    rw [cleanupTarget, Op.wp_bind, Op.wp_ofOption_some (hreads base), Op.wp_bind,
      Op.wp_ofOption_some hgenrpath, Op.wp_bind, wp_openref, hrefs, h.newpath]
    refine ⟨fun hstop => (Phase.marked (hrefs ▸ h)).stopped (by omega), fun _ => ?_⟩
    refine hdelete _ rfl ?_
    rw [Sys.steps_after]
    omega

theorem wp_cleanup_linked (base base' : Ftag) (h : Linked c s.references) :
    Op.wp (datastreamRepackCleanup ms base base' c.rmarkstr)
      (fun reverted s' => CleanedUp c fin reverted s'.references)
      (fun s' => Ends c fin s.steps s'.references) s := by
  obtain ⟨tgtftagstr, htgt, hnew⟩ := h.tgt
  refine wp_cleanup_waiting base base' h.toWaiting
    (fun s' hrefs hsteps => (Phase.linked (hrefs ▸ h)).stopped (by omega)) fun s₁ hrefs₁ hsteps₁ => ?_
  rw [htgt]
  have h₁ : Linked c s₁.references := hrefs₁ ▸ h
  refine wp_cleanupTarget base base' h₁.newpath hnew
    (fun hnil => (h₁.active [] hnil).ne_nil rfl)
    (fun s' hrefs hsteps => (Phase.linked (hrefs ▸ h₁)).stopped (by omega)) fun s₂ hrefs₂ hsteps₂ => ?_
  rw [h₁.unset]
  have h₂ : Linked c s₂.references := hrefs₂ ▸ h₁
  refine Op.wp_mono (wp_revert h₂ hnew) (fun reverted s' hend => ?_) fun s' hstop => ?_
  · rw [CleanedUp, if_pos hend.1]
    exact hend.2
  · rcases hstop.1 with hlinked | hreverting
    · exact (Phase.linked hlinked).stopped (by omega)
    · exact (Phase.reverting hreverting).stopped (by omega)

theorem wp_cleanup_reverting (base base' : Ftag) (h : Reverting c s.references) :
    Op.wp (datastreamRepackCleanup ms base base' c.rmarkstr)
      (fun reverted s' => CleanedUp c fin reverted s'.references)
      (fun s' => Ends c fin s.steps s'.references) s := by
  obtain ⟨tgtftagstr, htgt, hnew⟩ := h.tgt
  obtain ⟨realftagstr, hreal, -⟩ := h.real
  refine wp_cleanup_waiting base base' h.toWaiting
    (fun s' hrefs hsteps => (Phase.reverting (hrefs ▸ h)).stopped (by omega))
    fun s₁ hrefs₁ hsteps₁ => ?_
  rw [htgt]
  have h₁ : Reverting c s₁.references := hrefs₁ ▸ h
  refine wp_cleanupTarget base base' h₁.newpath hnew
    (fun hnil => nomatch h₁.active.symm.trans hnil)
    (fun s' hrefs hsteps => (Phase.reverting (hrefs ▸ h₁)).stopped (by omega))
    fun s₂ hrefs₂ hsteps₂ => ?_
  rw [hrefs₁, hreal]
  have h₂ : Reverting c s₂.references := hrefs₂ ▸ h₁
  have hreal₂ : s₂.references.xattrs c.marker .ftag = some realftagstr := by
    rw [hrefs₂, hrefs₁]
    exact hreal
  refine Op.wp_mono (wp_proceed_reverting base' h₂ hreal₂) (fun reverted s' hend => ?_)
    fun s' hstop => (Phase.reverting hstop.1).stopped (by omega)
  rw [CleanedUp, if_pos hend.1]
  exact hend.2

theorem wp_cleanup_completing (base base' : Ftag) (h : Completing c fin s.references) (hfin : fin ≠ []) :
    Op.wp (datastreamRepackCleanup ms base base' c.rmarkstr)
      (fun reverted s' => CleanedUp c fin reverted s'.references)
      (fun s' => Ends c fin s.steps s'.references) s := by
  obtain ⟨tgtftagstr, htgt, hnew⟩ := h.tgt
  refine wp_cleanup_waiting base base' h.toWaiting
    (fun s' hrefs hsteps => (Phase.completing (hrefs ▸ h)).stopped (by omega))
    fun s₁ hrefs₁ hsteps₁ => ?_
  rw [htgt]
  have h₁ : Completing c fin s₁.references := hrefs₁ ▸ h
  have hact : s₁.references.xattrs c.file .trepack ≠ some [] := by
    intro hnil
    rcases h₁.active with hact | ⟨hact, -⟩
    · exact hfin (Option.some.inj (hact.symm.trans hnil))
    · exact nomatch hact.symm.trans hnil
  refine wp_cleanupTarget base base' h₁.newpath hnew hact
    (fun s' hrefs hsteps => (Phase.completing (hrefs ▸ h₁)).stopped (by omega))
    fun s₂ hrefs₂ hsteps₂ => ?_
  rw [h₁.real]
  have h₂ : Completing c fin s₂.references := hrefs₂ ▸ h₁
  refine Op.wp_mono (wp_proceed base' h₂) (fun reverted s' hend => ?_)
    fun s' hstop => (Phase.completing hstop.1).stopped (by omega)
  rw [CleanedUp, if_neg (by rw [hend.1]; decide)]
  exact hend.2

theorem wp_cleanup_none (base base' : Ftag) (h : s.references.refs c.rmarkstr = none)
    (hend : Reverted c s.references ∨ Completed c fin s.references) :
    Op.wp (datastreamRepackCleanup ms base base' c.rmarkstr)
      (fun reverted s' => CleanedUp c fin reverted s'.references)
      (fun s' => Ends c fin s.steps s'.references) s := by
  have hends : Ends c fin s.steps s.references := ⟨hend.elim .reverted .completed, fun _ => hend⟩
  rw [datastreamRepackCleanup, Op.wp_bind, wp_statref, h]
  refine ⟨fun _ => hends, fun _ => ?_⟩
  rw [Op.wp_bind, Op.wp_check]
  exact ⟨nofun, fun _ => hends⟩

theorem wp_datastreamRepackCleanup (base base' : Ftag) (h : Phase c fin s.references) (hfin : fin ≠ []) :
    Op.wp (datastreamRepackCleanup ms base base' c.rmarkstr)
      (fun reverted s' => CleanedUp c fin reverted s'.references)
      (fun s' => Ends c fin s.steps s'.references) s := by
  cases h with
  | marked h => exact wp_cleanup_marked base base' h
  | linked h => exact wp_cleanup_linked base base' h
  | reverting h => exact wp_cleanup_reverting base base' h
  | completing h => exact wp_cleanup_completing base base' h hfin
  | reverted h => exact wp_cleanup_none base base' h.rmarkstr (.inl h)
  | completed h => exact wp_cleanup_none base base' h.rmarkstr (.inr h)

end Cleanup

/-! ## Runs -/

def writeTags (metahandle : Nat) : List Ftag → Op Mdal.Sys Unit
  | [] => pure ()
  | ftag :: tags => do
    putftag .trepack metahandle ftag
    writeTags metahandle tags

def repackFile (ms : Metascheme identifier) (place : Option Ftag) (base base' : Ftag)
    (path : List Char) (tags : List Ftag) (ftag : Ftag) : Op Mdal.Sys Unit := do
  let metahandle ← openRepackFile ms place base path
  writeTags metahandle tags
  completefile ms base' metahandle ftag

def start (steps : Nat) (r : References) : Mdal.Sys :=
  { references := r, calls := [], steps := steps }

/-- Cleanups of a marker, each stopped after its number of calls. -/
def cleanups (ms : Metascheme identifier) (base base' : Ftag) (refpath : List Char) :
    List Nat → References → References
  | [], r => r
  | steps :: rest, r => cleanups ms base base' refpath rest
      (datastreamRepackCleanup ms base base' refpath (start steps r)).2.references

theorem wp_writeTags (h : Linked c s.references) (htags : ∀ ftag ∈ tags, NewTag ms c.newpath ftag) :
    Op.wp (writeTags c.file tags) (fun _ s' => Linked c s'.references)
      (fun s' => Linked c s'.references) s := by
  induction tags generalizing s with
  | nil => exact Op.wp_pure.2 h
  | cons ftag tags ih =>
    have hnew := htags ftag List.mem_cons_self
    rw [writeTags, Op.wp_bind]
    refine wp_putftag hnew.majorversion hnew.minorversion (fun _ => h) fun _ => ?_
    apply ih
    · exact h.write hnew.isNew
    · exact fun ftag' hmem => htags ftag' (List.mem_cons_of_mem ftag hmem)

theorem repackFile_phase (base base' : Ftag) (h : Fresh c s.references)
    (hplc : ∀ ftag, place = some ftag → NewTag ms c.newpath ftag)
    (htags : ∀ ftag ∈ tags, NewTag ms c.newpath ftag)
    (hftag : NewTag ms c.newpath (Datastream.Sys.completed ftag)) :
    Phase c (Datastream.Sys.completed ftag).toStr
      (repackFile ms place base base' c.path tags ftag s).2.references := by
  have hspec : Op.wp (repackFile ms place base base' c.path tags ftag)
      (fun _ s' => Phase c (Datastream.Sys.completed ftag).toStr s'.references)
      (fun s' => Phase c (Datastream.Sys.completed ftag).toStr s'.references) s := by
    rw [repackFile, Op.wp_bind]
    refine Op.wp_mono (wp_openRepackFile base h hplc) (fun metahandle s₁ hopen => ?_)
      fun s' hstop => hstop.1.elim .marked .reverted
    obtain ⟨rfl, hlinked⟩ := hopen
    rw [Op.wp_bind]
    refine Op.wp_mono (wp_writeTags hlinked htags) (fun _ s₂ hwrit => ?_) fun s' hstop =>
      .linked hstop
    exact Op.wp_mono (wp_completefile base' hwrit hftag) (fun _ s' hend => .completed hend)
      fun s' hstop => hstop.elim .linked .completing
  exact Op.wp_snd hspec

theorem cleanups_phase (base base' : Ftag) (hfin : fin ≠ []) (steps : List Nat) (h : Phase c fin r) :
    Phase c fin (cleanups ms base base' c.rmarkstr steps r) := by
  induction steps generalizing r with
  | nil => exact h
  | cons n steps ih =>
    apply ih
    have hspec := wp_datastreamRepackCleanup (s := start n r) base base' h hfin
    refine Op.wp_snd (P := fun s' : Mdal.Sys => Phase c fin s'.references)
      (Op.wp_mono hspec (fun reverted s' hend => ?_) fun s' hstop => hstop.1)
    unfold CleanedUp at hend
    split at hend
    · exact .reverted hend
    · exact .completed hend

structure Untouched (ms : Metascheme identifier) (origftag : Ftag)
    (ftagstr path newpath : List Char) (file : Nat) (r : References) : Prop where
  leads : r.refs path = some file
  tagged : r.xattrs file .ftag = some ftagstr
  reads : Reads ftagstr origftag
  inactive : r.xattrs file .trepack = none
  unused : r.refs newpath = none
  markers : ∀ path' rmarkstr,
    path' = path ∨ datastreamGenrpath identifier origftag ms.reftable = some path' →
    repackmarkertgt identifier (some path') origftag ms = some rmarkstr → r.refs rmarkstr = none

theorem Untouched.repacking {tgtftag : Ftag} (h : Untouched ms origftag ftagstr path newpath file r)
    (hreftgt : opReftgt identifier ms head origftag = some path)
    (hnewpath : datastreamGenrpath identifier tgtftag ms.reftable = some newpath) :
    ∃ c : Repacking ms, c.path = path ∧ c.newpath = newpath ∧ c.ftagstr = ftagstr ∧
      c.origftag = origftag ∧ c.file = file ∧ Fresh c r := by
  obtain ⟨width, vals, hpath⟩ := opReftgt_eq hreftgt
  obtain ⟨nodenum, -, hback⟩ := datastreamGenrpath_eq ms.generated origftag
  obtain ⟨rmarkstr, hrmark⟩ := repackmarkertgt_some ms origftag path
  obtain ⟨foundstr, hfound⟩ := repackmarkertgt_some ms origftag
    (leafPath (toUll ms.refbreadth) (toUll ms.refdepth) (toUll ms.refdigits) nodenum ++
      ftagMetatgt origftag)
  have hmark := h.markers path rmarkstr (.inl rfl) hrmark
  have hoth := h.markers _ foundstr (.inr hback) hfound
  have hfile := r.refs_lt path file h.leads
  have hne {other : List Char} (hother : r.refs other = none) : other ≠ path := by
    rintro rfl
    cases hother.symm.trans h.leads
  let c : Repacking ms :=
    { path := path, newpath := newpath, rmarkstr := rmarkstr, ftagstr := ftagstr
      origftag := origftag, origrefpath := _, foundstr := foundstr, file := file, marker := r.fresh
      reads := h.reads
      rmark := hrmark
      back := hback
      found := hfound
      found_ne := fun hne heq => by
        subst heq hpath
        exact hne (congrArg (· ++ ftagMetatgt origftag) (refpath_eq_of_marker hfound hrmark))
      newpath_ne_path := hne h.unused
      newpath_ne_rmarkstr := genrpath_ne_marker hnewpath hrmark
      newpath_ne_foundstr := genrpath_ne_marker hnewpath hfound
      rmarkstr_ne_path := hne hmark
      marker_ne_file := hfile.ne' }
  exact ⟨c, rfl, rfl, rfl, rfl, rfl, h.leads, hmark, h.unused, h.tagged, h.inactive, rfl,
    fun _ => hoth⟩

/-- A repack is crash-atomic: wherever it is stopped, and wherever any number of cleanups of its marker
are stopped, the next one that gets to its end has reverted it or completed it. -/
theorem repack_atomic (base base' : Ftag) (hreftgt : opReftgt identifier ms head origftag = some path)
    (h : Untouched ms origftag ftagstr path newpath file r)
    (hplace : ∀ ftag, place = some ftag → NewTag ms newpath ftag)
    (htags : ∀ ftag ∈ tags, NewTag ms newpath ftag)
    (hftag : NewTag ms newpath (Datastream.Sys.completed ftag)) :
    ∃ c : Repacking ms, c.path = path ∧ c.newpath = newpath ∧ c.ftagstr = ftagstr ∧
      c.origftag = origftag ∧ c.file = file ∧ ∀ steps cleaned last result s',
        datastreamRepackCleanup ms base base' c.rmarkstr (start last
            (cleanups ms base base' c.rmarkstr cleaned
              (repackFile ms place base base' path tags ftag (start steps r)).2.references)) =
          (result, s') →
        (∀ reverted, result = some reverted →
          CleanedUp c (Datastream.Sys.completed ftag).toStr reverted s'.references) ∧
        (10 ≤ last → Reverted c s'.references ∨
          Completed c (Datastream.Sys.completed ftag).toStr s'.references) := by
  obtain ⟨c, rfl, rfl, rfl, rfl, rfl, hfresh⟩ := h.repacking hreftgt hftag.newpath
  refine ⟨c, rfl, rfl, rfl, rfl, rfl, fun steps cleaned last result s' hrun => ?_⟩
  have hfin := hftag.isNew.ne_nil
  have hrepack := repackFile_phase (s := start steps r) base base' hfresh hplace htags hftag
  have hcleaned := cleanups_phase base base' hfin cleaned hrepack
  have hspec := wp_datastreamRepackCleanup (s := start last _) base base' hcleaned hfin
  cases result with
  | none =>
    have hends := Op.wp_none hspec hrun
    exact ⟨nofun, hends.2⟩
  | some reverted =>
    have hclean := Op.wp_some hspec hrun
    refine ⟨fun reverted' heq => Option.some.inj heq ▸ hclean, fun _ => ?_⟩
    unfold CleanedUp at hclean
    split at hclean
    · exact .inl hclean
    · exact .inr hclean

theorem sampleSys_untouched : Untouched (sampleMs 1 (by decide)) sampleOrig sampleOrig.toStr
    samplePath (sampleDirs 1 ++ ftagMetatgt sampleNew) 0 sampleSys.references where
  leads := sampleSys_path
  tagged := sampleSys_ftag
  reads := sampleOrig_reads
  inactive := rfl
  unused := sampleSys_other (by decide)
  markers := by
    intro path' rmarkstr hpath' hmark
    have hsame : path' = samplePath := by
      rcases hpath' with hpath' | hpath'
      · exact hpath'
      · exact Option.some.inj (hpath'.symm.trans (sampleMs_genrpath 1 (by decide) sampleOrig))
    subst hsame
    obtain rfl := Option.some.inj ((samplePath_marker _).symm.trans hmark)
    exact sampleSys_other (sampleMs_marker_ne 1)

theorem sampleNew_newTag : NewTag (sampleMs 1 (by decide)) (sampleDirs 1 ++ ftagMetatgt sampleNew)
    sampleNew :=
  ⟨rfl, rfl, sampleNew_reads, sampleMs_genrpath 1 (by decide) sampleNew⟩

theorem sampleMs_atomic : ∃ c : Repacking (sampleMs 1 (by decide)),
    c.path = samplePath ∧ c.newpath = sampleDirs 1 ++ ftagMetatgt sampleNew ∧
      c.ftagstr = sampleOrig.toStr ∧ c.origftag = sampleOrig ∧ c.file = 0 ∧
      ∀ steps cleaned last result s',
        datastreamRepackCleanup (sampleMs 1 (by decide)) sampleOrig sampleOrig c.rmarkstr
            (start last (cleanups (sampleMs 1 (by decide)) sampleOrig sampleOrig c.rmarkstr cleaned
              (repackFile (sampleMs 1 (by decide)) (some sampleNew) sampleOrig sampleOrig samplePath
                [sampleNew] sampleNew (start steps sampleSys.references)).2.references)) =
          (result, s') →
        (∀ reverted, result = some reverted →
          CleanedUp c (Datastream.Sys.completed sampleNew).toStr reverted s'.references) ∧
        (10 ≤ last → Reverted c s'.references ∨
          Completed c (Datastream.Sys.completed sampleNew).toStr s'.references) := by
  have hcompleted : Datastream.Sys.completed sampleNew = sampleNew := rfl
  exact repack_atomic sampleOrig sampleOrig sampleMs_opReftgt sampleSys_untouched
    (fun ftag hftag => Option.some.inj hftag ▸ sampleNew_newTag)
    (fun ftag hmem => List.mem_singleton.1 hmem ▸ sampleNew_newTag)
    (hcompleted ▸ sampleNew_newTag)

end Marfs.Repack
