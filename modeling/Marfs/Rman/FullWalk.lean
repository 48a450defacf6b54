import Marfs.Rman.WalkRun

/-!
# Walks that read every tag

A walk with some threshold set reads the tags of every file it meets, whichever threshold it is.
The stages of a turn then differ in the ops they link, but not in where the walker stands and in
the files it counted (`tally`), so that one inversion of a turn serves every full walk
(`iterateStep_full`).  `Finishes` relates a walker to the one a caller's repeated calls end with.
-/

namespace Marfs.Rman

open Datastream Tagging

variable {objtarget : Ftag → Option NeLocation} {refs : Refs}

namespace Streamwalker

def tally (walker : Streamwalker) : Streamwalker :=
  { walker with
    gcops := []
    rbldops := []
    objno := 0
    activefiles := 0
    activeindex := 0
    activebytes := 0
    report :=
      { filecount := walker.report.filecount
        fileusage := walker.report.fileusage } }

section Tally

variable {walker walker' : Streamwalker} (h : walker'.tally = walker.tally)
include h

theorem tally_fileno : walker'.fileno = walker.fileno := by
  simpa [tally] using congrArg fileno h

theorem tally_ftag : walker'.ftag = walker.ftag := by
  simpa [tally] using congrArg ftag h

theorem tally_gctag : walker'.gctag = walker.gctag := by
  simpa [tally] using congrArg gctag h

theorem tally_gcthresh : walker'.gcthresh = walker.gcthresh := by
  simpa [tally] using congrArg gcthresh h

theorem tally_rebuildthresh : walker'.rebuildthresh = walker.rebuildthresh := by
  simpa [tally] using congrArg rebuildthresh h

theorem tally_pullxattrs : walker'.pullxattrs = walker.pullxattrs := by
  have hrep : walker'.repackthresh = walker.repackthresh := by
    simpa [tally] using congrArg repackthresh h
  simp only [pullxattrs, tally_gcthresh h, hrep, tally_rebuildthresh h]

theorem tally_filecount : walker'.report.filecount = walker.report.filecount := by
  simpa [tally] using congrArg (fun walker => walker.report.filecount) h

theorem tally_fileusage : walker'.report.fileusage = walker.report.fileusage := by
  simpa [tally] using congrArg (fun walker => walker.report.fileusage) h

end Tally

def KeepsTally (walker : Streamwalker) (stage : Option Streamwalker) : Prop :=
  ∀ walker', stage = some walker' → walker'.tally = walker.tally

variable {walker : Streamwalker}

theorem KeepsTally.some {walker' : Streamwalker} (h : walker'.tally = walker.tally) :
    KeepsTally walker (some walker') := by
  intro walker'' heq
  obtain rfl := Option.some.inj heq
  exact h

variable {stage : Option Streamwalker} {gcops rbldops : List Opinfo} {prevdelzero : Bool}
  {tgtoffset : Nat}

theorem KeepsTally.bind {next : Streamwalker → Option Streamwalker} (h : KeepsTally walker stage)
    (hnext : ∀ walker₁, KeepsTally walker₁ (next walker₁)) : KeepsTally walker (stage.bind next) := by
  intro walker' heq
  obtain ⟨walker₁, h₁, h₂⟩ := Option.bind_eq_some_iff.1 heq
  exact (hnext walker₁ walker' h₂).trans (h walker₁ h₁)

theorem KeepsTally.map {next : Streamwalker → Streamwalker} (h : KeepsTally walker stage)
    (hnext : ∀ walker₁, (next walker₁).tally = walker₁.tally) : KeepsTally walker (stage.map next) := by
  intro walker' heq
  obtain ⟨walker₁, h₁, rfl⟩ := Option.map_eq_some_iff.1 heq
  exact (hnext walker₁).trans (h walker₁ h₁)

theorem KeepsTally.ite {c : Prop} [Decidable c] {stage' : Option Streamwalker} (h : KeepsTally walker stage)
    (h' : KeepsTally walker stage') : KeepsTally walker (if c then stage else stage') := by
  split
  · exact h
  · exact h'

/-! ## The stages keep the tally -/

theorem updateDelref_keeps (walker : Streamwalker) (ftag : Ftag)
    (update : Opinfo → Option Opinfo) : KeepsTally walker (walker.updateDelref ftag update) := by
  intro walker' h
  obtain ⟨gcops, -, rfl⟩ := Option.map_eq_some_iff.1 h
  rfl

theorem deleteObj_keeps (walker : Streamwalker) (tmptag : Ftag) :
    KeepsTally walker (walker.deleteObj tmptag) := by
  intro walker' h
  obtain ⟨gcops, -, rfl⟩ := Option.map_eq_some_iff.1 h
  rfl

theorem deleteSpan_keeps (n : Nat) (walker : Streamwalker) (tmptag : Ftag) :
    KeepsTally walker (deleteSpan n walker tmptag) := by
  induction n generalizing walker tmptag with
  | zero => exact .some rfl
  | succ n ih => exact (deleteObj_keeps walker tmptag).bind fun walker₁ => ih walker₁ _

theorem deleteNoted_keeps (walker : Streamwalker) (tmptag : Ftag) :
    KeepsTally walker (walker.deleteNoted tmptag) := by
  refine (deleteObj_keeps walker tmptag).bind fun walker₁ => ?_
  exact .ite (updateDelref_keeps _ _ _) (.some rfl)

theorem rebuildObj_keeps (walker : Streamwalker) (tmptag : Ftag) :
    KeepsTally walker (walker.rebuildObj objtarget tmptag) := by
  intro walker' h
  simp only [rebuildObj, Option.bind_eq_bind, Option.bind_eq_some_iff] at h
  obtain ⟨location, -, h⟩ := h
  split at h
  · obtain ⟨rbldops, -, h⟩ := Option.bind_eq_some_iff.1 h
    obtain rfl := Option.some.inj h
    rfl
  · obtain rfl := Option.some.inj h
    rfl

theorem rebuildSpan_keeps (n : Nat) (walker : Streamwalker) (tmptag : Ftag) :
    KeepsTally walker (rebuildSpan objtarget n walker tmptag) := by
  induction n generalizing walker tmptag with
  | zero => exact .some rfl
  | succ n ih => exact (rebuildObj_keeps walker tmptag).bind fun walker₁ => ih walker₁ _

theorem countTransition_tally (walker : Streamwalker) : walker.countTransition.tally = walker.tally := by
  unfold countTransition
  split <;> rfl

theorem objectTransition_keeps (walker : Streamwalker) (prevdelzero : Bool) :
    KeepsTally walker (walker.objectTransition objtarget prevdelzero) := by
  have hleav : KeepsTally walker (walker.countTransition.leavePrevObj prevdelzero) := by
    intro walker' h
    rw [← countTransition_tally walker]
    exact KeepsTally.ite (deleteNoted_keeps _ _) (.some rfl) walker' h
  refine .ite (hleav.bind fun walker₁ => ?_) (.some rfl)
  exact (KeepsTally.ite (rebuildObj_keeps _ _) (.some rfl)).bind fun walker₂ => .some rfl

theorem enterFile_keeps (walker : Streamwalker) (prevdelzero : Bool) :
    KeepsTally walker (walker.enterFile objtarget prevdelzero) :=
  .ite (objectTransition_keeps walker prevdelzero) (.some rfl)

theorem eligibleRef_keeps (walker : Streamwalker) (ftag : Ftag) (eos : Bool) :
    KeepsTally walker (walker.eligibleRef ftag eos) :=
  (updateDelref_keeps _ _ _).map fun _ => rfl

theorem eligibleFile_keeps (walker : Streamwalker) (endobj : Nat) (eos : Bool) :
    KeepsTally walker (walker.eligibleFile endobj eos) := by
  refine (eligibleRef_keeps walker walker.ftag eos).bind fun walker₁ => ?_
  have hobjs : KeepsTally walker₁ (walker₁.eligibleObjs endobj) :=
    .ite ((KeepsTally.ite (deleteNoted_keeps _ _) (.some rfl)).bind fun _ =>
      deleteSpan_keeps _ _ _) (.some rfl)
  exact hobjs.bind fun walker₂ => .ite (deleteObj_keeps _ _) (.some rfl)

theorem trailingFile_keeps (walker : Streamwalker) (tmptag : Ftag) :
    KeepsTally walker (walker.trailingFile tmptag) :=
  .ite (eligibleRef_keeps _ _ _) (.some rfl)

theorem assumeEos_keeps (walker : Streamwalker) (tmptag : Ftag) :
    KeepsTally walker (walker.assumeEos tmptag) :=
  .ite (updateDelref_keeps _ _ _) (.some rfl)

theorem rebuildFile_keeps (walker : Streamwalker) (endobj : Nat) (eos : Bool) :
    KeepsTally walker (walker.rebuildFile objtarget endobj eos) :=
  .ite (rebuildSpan_keeps _ _ _) (.some rfl)

theorem noteVolatile_tally (walker : Streamwalker) : walker.noteVolatile.tally = walker.tally := by
  unfold noteVolatile
  split <;> rfl

theorem passObjects_tally (walker : Streamwalker) (endobj : Nat) :
    (walker.passObjects endobj).1.tally = walker.tally := by
  unfold passObjects
  split
  · dsimp only
    split <;> rfl
  · rfl

theorem passActive_tally (walker : Streamwalker) (fileno : Nat) :
    (walker.passActive fileno).1.tally = walker.tally := by
  unfold passActive
  split <;> rfl

def counted (walker : Streamwalker) : Streamwalker :=
  { walker with report :=
    { walker.report with
      filecount := walker.report.filecount + 1
      fileusage :=
        if walker.stval.active then walker.report.fileusage + 1 else walker.report.fileusage } }

theorem visitFile_tally {walker' : Streamwalker}
    (h : walker.visitFile objtarget prevdelzero tgtoffset = some (walker', gcops, rbldops)) :
    walker'.tally = { walker.tally.counted with fileno := walker.fileno + tgtoffset } := by
  unfold visitFile at h
  dsimp only at h
  split at h
  · cases h
  simp only [Option.bind_eq_bind, Option.bind_eq_some_iff, Option.some.injEq, Prod.mk.injEq] at h
  obtain ⟨walker₁, h₁, walker₂, h₂, walker₃, h₃, rfl, -, -⟩ := h
  have hgc : walker₂.tally = walker₁.tally :=
    KeepsTally.ite (eligibleFile_keeps _ _ _) (.some rfl) _ h₂
  have hsame : walker₂.noteVolatile.tally = walker.tally :=
    (noteVolatile_tally walker₂).trans (hgc.trans (enterFile_keeps walker prevdelzero _ h₁))
  have hnote : (walker₂.noteVolatile.noteFile walker.pullxattrs).tally = walker.tally.counted := by
    rw [← hsame]
    rfl
  generalize hend : (if walker.pullxattrs then datastreamFilebounds walker.ftag else walker.objno) =
    endobj at h₃ ⊢
  have hpass : ((walker₃.passObjects endobj).1.passActive (walker.fileno + tgtoffset)).1.tally =
      walker.tally.counted := by
    rw [passActive_tally, passObjects_tally, rebuildFile_keeps _ _ _ _ h₃, hnote]
  have hmove : ∀ (w : Streamwalker) (fileno objno : Nat),
      ({ w with fileno := fileno, objno := objno } : Streamwalker).tally =
        { w.tally with fileno := fileno } := fun _ _ _ => rfl
  rw [hmove, hpass]

structure Counts (walker walker' : Streamwalker) (fileno : Nat) : Prop where
  fileno_eq : walker'.fileno = fileno
  ftag_eq : walker'.ftag = walker.ftag
  gctag_eq : walker'.gctag = walker.gctag
  stval_eq : walker'.stval = walker.stval
  gcthresh_eq : walker'.gcthresh = walker.gcthresh
  pullxattrs_eq : walker'.pullxattrs = walker.pullxattrs
  filecount_eq : walker'.report.filecount = walker.report.filecount + 1
  fileusage_eq : walker'.report.fileusage =
    walker.report.fileusage + if walker.stval.active then 1 else 0

theorem visitFile_counts {walker' : Streamwalker}
    (h : walker.visitFile objtarget prevdelzero tgtoffset = some (walker', gcops, rbldops)) :
    Counts walker walker' (walker.fileno + tgtoffset) := by
  have htally := visitFile_tally h
  have hfield {α : Type} (f : Streamwalker → α) := congrArg f htally
  have hthr : walker'.gcthresh = walker.gcthresh := hfield gcthresh
  have hrep : walker'.repackthresh = walker.repackthresh := hfield repackthresh
  have hreb : walker'.rebuildthresh = walker.rebuildthresh := hfield rebuildthresh
  refine ⟨hfield fileno, hfield ftag, hfield gctag, hfield stval, hthr, ?_,
    hfield (·.report.filecount), ?_⟩
  · simp only [pullxattrs, hthr, hrep, hreb]
  · have husage : walker'.report.fileusage =
        if walker.stval.active then walker.report.fileusage + 1 else walker.report.fileusage :=
      hfield (·.report.fileusage)
    rw [husage]
    split <;> rfl

theorem openSoleRef_keeps (walker : Streamwalker) (eos : Bool) :
    KeepsTally walker (walker.openSoleRef eos) :=
  .ite ((updateDelref_keeps _ _ _).map fun _ => rfl) (.some rfl)

theorem openObjs_keeps (walker : Streamwalker) (endobj : Nat) (eos : Bool) :
    KeepsTally walker (walker.openObjs endobj eos) :=
  .ite ((deleteSpan_keeps _ _ _).bind fun _ => updateDelref_keeps _ _ _) (.some rfl)

theorem openEligible_keeps (walker : Streamwalker) (endobj : Nat) (eos : Bool) :
    KeepsTally walker (walker.openEligible endobj eos) :=
  (openSoleRef_keeps walker eos).bind fun walker₁ => openObjs_keeps walker₁ endobj eos

theorem openFile_counts {walker' : Streamwalker} (h : walker.openFile objtarget = some walker') :
    Counts walker walker' walker.fileno := by
  simp only [openFile, Option.bind_eq_bind, Option.bind_eq_some_iff, Option.some.injEq] at h
  obtain ⟨walker₁, h₁, walker₂, h₂, rfl⟩ := h
  have hsame : walker₁.noteVolatile.tally = walker.tally :=
    (noteVolatile_tally walker₁).trans
      (KeepsTally.ite (openEligible_keeps _ _ _) (.some rfl) _ h₁)
  have hopen : (walker₂.openActive (datastreamFilebounds walker.ftag)).tally = walker₂.tally := by
    unfold openActive
    split <;> rfl
  have hnoted : ∀ (w : Streamwalker) (endobj : Nat) (eos : Bool),
      ({ w with report := w.openReport endobj eos } : Streamwalker).tally = w.tally.counted :=
    fun _ _ _ => rfl
  have htally := hopen.trans (rebuildFile_keeps _ _ _ _ h₂)
  rw [hnoted, hsame] at htally
  have hfield {α : Type} (f : Streamwalker → α) := congrArg f htally
  refine ⟨hfield fileno, hfield ftag, hfield gctag, hfield stval, hfield gcthresh, ?_,
    hfield (·.report.filecount), ?_⟩
  · have hthr : _ = walker.gcthresh := hfield gcthresh
    have hrep : _ = walker.repackthresh := hfield repackthresh
    have hreb : _ = walker.rebuildthresh := hfield rebuildthresh
    simp only [pullxattrs]
    rw [← hthr, ← hrep, ← hreb]
    rfl
  · have husage : _ = if walker.stval.active then walker.report.fileusage + 1
        else walker.report.fileusage := hfield (·.report.fileusage)
    refine husage.trans ?_
    split <;> rfl

/-! ## One turn -/

def nextno (walker : Streamwalker) : Nat := walker.fileno + (1 + walker.gctag.refcnt)

def GapEnds (walker : Streamwalker) : Prop := walker.gctag.refcnt ≠ 0 ∧ walker.gctag.eos = true

def countUntagged (walker : Streamwalker) (file : RefFile) : Streamwalker :=
  let walker := walker.loadFile file true
  { walker with report :=
    { walker.report with
      filecount := walker.report.filecount + 1
      bytecount := walker.report.bytecount + walker.stval.size } }

/-- The ways to leave the loop when no deletion is to be recovered: the stream ended; a GCTAG says
it ends here; the next reference has no FTAG; the next reference is missing after a finalized file. -/
inductive FullLeave (refs : Refs) (walker walker' : Streamwalker) : Prop
  | ended (h : ¬ walker.Continues) (h' : walker' = walker)
  | gctagEos (hcont : walker.Continues) (heos : walker.GapEnds) (h' : walker' = walker)
  | untagged (hcont : walker.Continues) (heos : ¬ walker.GapEnds) (file : RefFile)
      (hfile : refs.file walker.nextno = some file) (huntagged : file.ftag = none)
      (htrail : (walker.countUntagged file).trailingFile (walker.ftag.atFile walker.nextno) =
        some walker')
  | missing (hcont : walker.Continues) (heos : ¬ walker.GapEnds)
      (hmissing : refs.file walker.nextno = none) (hpos : walker.fileno ≠ 0)
      (hfin : walker.ftag.state.data = .fin) (walker₁ : Streamwalker)
      (hassume : walker.assumeEos (walker.ftag.atFile walker.nextno) = some walker₁)
      (h' : walker' = { walker₁ with ftag := { walker₁.ftag with endofstream := true } })

def FullVisit (objtarget : Ftag → Option NeLocation) (refs : Refs) (walker walker' : Streamwalker)
    (gcops rbldops : List Opinfo) : Prop :=
  walker.Continues ∧ ¬ walker.GapEnds ∧ ∃ (file : RefFile) (ftag : Ftag),
    refs.file walker.nextno = some file ∧ file.ftag = some ftag ∧
    (walker.loadFile file true).visitFile objtarget walker.gctag.delzero
      (1 + walker.gctag.refcnt) = some (walker', gcops, rbldops)

theorem iterateStep_full (hpull : walker.pullxattrs = true) (hrec : walker.recoverInprog = some walker)
    (hpos : walker.fileno = 0 ∨ walker.ftag.fileno = walker.fileno) :
    match walker.iterateStep objtarget refs with
    | .failed => True
    | .left walker' => FullLeave refs walker walker'
    | .again walker' => FullVisit objtarget refs walker walker' [] []
    | .dispatched walker' gcops rbldops =>
        FullVisit objtarget refs walker walker' gcops rbldops := by
  unfold iterateStep
  by_cases hend : (walker.ftag.endofstream || walker.ftag.unfinalized) = true
  · rw [if_pos hend]
    exact .ended (fun h => by simp [h.1, h.2] at hend) rfl
  rw [if_neg hend, hrec]
  have hcont : walker.Continues := by simpa [Continues] using hend
  dsimp only
  by_cases heos : (walker.gctag.refcnt ≠ 0 && walker.gctag.eos) = true
  · rw [if_pos heos]
    exact .gctagEos hcont (by simpa [GapEnds] using heos) rfl
  rw [if_neg heos]
  have heos' : ¬ walker.GapEnds := by simpa [GapEnds] using heos
  cases hfile : refs.file (walker.fileno + (1 + walker.gctag.refcnt)) with
  | none =>
    dsimp only
    unfold missingFile
    by_cases h0 : walker.fileno = 0
    · rw [if_pos h0]
      trivial
    rw [if_neg h0, if_pos (hpos.resolve_left h0).symm]
    by_cases hfin : walker.ftag.state.data = .fin
    · rw [if_pos hfin]
      cases hass : walker.assumeEos
          (walker.ftag.atFile (walker.fileno + (1 + walker.gctag.refcnt))) with
      | none => trivial
      | some walker₁ => exact .missing hcont heos' hfile h0 hfin walker₁ hass rfl
    · rw [if_neg hfin]
      trivial
  | some file =>
    dsimp only
    have hpull' : (walker.loadFile file true).pullxattrs = true := hpull
    rw [hpull, hpull', Bool.true_and]
    cases htag : file.ftag with
    | none =>
      rw [Option.isNone_none, if_pos rfl]
      unfold untaggedFile
      cases htrl : (walker.countUntagged file).trailingFile (walker.ftag.atFile walker.nextno) with
      | none =>
        dsimp only [countUntagged, nextno] at htrl ⊢
        rw [htrl]
        trivial
      | some walker' =>
        have hleft := htrl
        dsimp only [countUntagged, nextno] at hleft ⊢
        rw [hleft]
        exact .untagged hcont heos' file hfile htag htrl
    | some ftag =>
      rw [Option.isNone_some, if_neg Bool.false_ne_true]
      cases hvisit : (walker.loadFile file true).visitFile objtarget walker.gctag.delzero
          (1 + walker.gctag.refcnt) with
      | none => trivial
      | some result =>
        obtain ⟨walker', gcops, rbldops⟩ := result
        have hstep : FullVisit objtarget refs walker walker' gcops rbldops :=
          ⟨hcont, heos', file, ftag, hfile, htag, hvisit⟩
        rcases gcops with _ | ⟨op, gcops⟩ <;> rcases rbldops with _ | ⟨op', rbldops⟩ <;>
          exact hstep

/-- Nothing is recovered where no deletion is in progress, or no GC threshold is set. -/
theorem recoverInprog_idle (h : walker.gctag.inprog = false ∨ walker.gcthresh = 0) :
    walker.recoverInprog = some walker := by
  unfold recoverInprog
  rcases h with h | h <;> simp [h]

theorem FullVisit.visited {walker' : Streamwalker} (hpull : walker.pullxattrs = true)
    (h : FullVisit objtarget refs walker walker' gcops rbldops) :
    ∃ file ftag, refs.file walker.nextno = some file ∧ file.ftag = some ftag ∧
      ftag.fileno = walker.nextno ∧ Counts (walker.loadFile file true) walker' walker.nextno ∧
      (walker.loadFile file true).ftag = ftag := by
  obtain ⟨-, -, file, ftag, hfile, htag, hvisit⟩ := h
  have hload : (walker.loadFile file true).ftag = ftag := by simp [loadFile, htag]
  refine ⟨file, ftag, hfile, htag, ?_, visitFile_counts hvisit, hload⟩
  have hpull' : (walker.loadFile file true).pullxattrs = true := hpull
  unfold visitFile at hvisit
  dsimp only at hvisit
  split at hvisit
  · cases hvisit
  · rename_i hno
    rw [hpull', Bool.true_and, hload] at hno
    simpa [loadFile, nextno] using hno

end Streamwalker

/-! ## Walks that come to an end -/

/-- A caller's calls, from a walker on, dispatch the given rebuild ops and end with `0` and the given
walker. -/
inductive Finishes (objtarget : Ftag → Option NeLocation) (refs : Refs) :
    Streamwalker → List Opinfo → Streamwalker → Prop
  | again {walker walker₁ walker' rbldops}
      (hstep : walker.iterateStep objtarget refs = .again walker₁)
      (h : Finishes objtarget refs walker₁ rbldops walker') :
      Finishes objtarget refs walker rbldops walker'
  | dispatched {walker walker₁ walker' gcops rbldops rest}
      (hstep : walker.iterateStep objtarget refs = .dispatched walker₁ gcops rbldops)
      (h : Finishes objtarget refs walker₁ rest walker') :
      Finishes objtarget refs walker (rbldops ++ rest) walker'
  | left {walker walker₁ walker' rest}
      (hstep : walker.iterateStep objtarget refs = .left walker₁)
      (hops : ¬ (walker₁.gcops = [] ∧ walker₁.rbldops = []))
      (h : Finishes objtarget refs { walker₁ with gcops := [], rbldops := [] } rest walker') :
      Finishes objtarget refs walker (walker₁.rbldops ++ rest) walker'
  | complete {walker walker'} (hstep : walker.iterateStep objtarget refs = .left walker')
      (hops : walker'.gcops = [] ∧ walker'.rbldops = []) :
      Finishes objtarget refs walker [] walker'

variable {walker walker' : Streamwalker}

theorem finishes_of_loop_complete (fuel : Nat)
    (h : iterateLoop objtarget refs fuel walker = .complete walker') :
    Finishes objtarget refs walker [] walker' := by
  refine iterateLoop_complete (motive := fun walker => Finishes objtarget refs walker [] walker')
    (fun walker walker₁ hstep ih => ?_) (fun walker hstep hops => ?_) fuel h
  · exact .again hstep ih
  · exact .complete hstep hops

variable {rbldops : List Opinfo} {walker₀ : Streamwalker}

theorem finishes_of_loop_dispatched (fuel : Nat) {walker₁ : Streamwalker} {gcops rest : List Opinfo}
    (h : iterateLoop objtarget refs fuel walker = .dispatched walker₁ gcops rbldops)
    (hrest : Finishes objtarget refs walker₁ rest walker') :
    Finishes objtarget refs walker (rbldops ++ rest) walker' := by
  refine iterateLoop_dispatched
    (motive := fun walker => Finishes objtarget refs walker (rbldops ++ rest) walker')
    (fun walker walker₁ hstep ih => ?_) (fun walker hstep => ?_)
    (fun walker walker₂ hstep hops hcleared _ hrbldops => ?_) fuel h
  · exact .again hstep ih
  · exact .dispatched hstep hrest
  · subst hcleared hrbldops
    exact .left hstep hops hrest

theorem finishes_of_calls (n : Nat) (h : (iterateCalls objtarget refs n walker).status = .complete walker') :
    Finishes objtarget refs walker (iterateCalls objtarget refs n walker).rbldops.flatten
      walker' := by
  induction n generalizing walker with
  | zero => cases h
  | succ n ih =>
    unfold iterateCalls at h ⊢
    cases hcall : processIteratestreamwalker objtarget refs walker with
    | outOfFuel => rw [hcall] at h; cases h
    | failed => rw [hcall] at h; cases h
    | complete walker₁ =>
      rw [hcall] at h
      obtain rfl := WalkStatus.complete.inj h
      exact finishes_of_loop_complete _ hcall
    | dispatched walker₁ gcops rbldops =>
      rw [hcall] at h
      exact finishes_of_loop_dispatched _ hcall (ih h)

theorem finishes_of_walkStream {thresh : Thresholds} {rebuildloc : Option NeLocation} {n : Nat}
    (h : (walkStream objtarget refs thresh rebuildloc n).status = .complete walker') :
    ∃ walker, processOpenstreamwalker objtarget refs thresh rebuildloc = .opened walker ∧
      Finishes objtarget refs walker (walkStream objtarget refs thresh rebuildloc n).rbldops.flatten
        walker' := by
  obtain ⟨walker, hopen, hwalk⟩ := walkStream_complete h
  rw [hwalk] at h ⊢
  exact ⟨walker, hopen, finishes_of_calls n h⟩

theorem clear_of_nil (hops : walker.gcops = [] ∧ walker.rbldops = []) :
    ({ walker with gcops := [], rbldops := [] } : Streamwalker) = walker := by
  cases walker
  obtain ⟨rfl, rfl⟩ := hops
  rfl

theorem Finishes.after (h : Finishes objtarget refs walker rbldops walker') :
    match walker.iterateStep objtarget refs with
    | .failed => False
    | .again walker₁ | .dispatched walker₁ _ _ => ∃ rest, Finishes objtarget refs walker₁ rest walker'
    | .left walker₁ =>
      (∃ rest, Finishes objtarget refs { walker₁ with gcops := [], rbldops := [] } rest walker') ∨
        walker' = { walker₁ with gcops := [], rbldops := [] } := by
  cases h with
  | again hstep hrest =>
    rw [hstep]
    exact ⟨_, hrest⟩
  | dispatched hstep hrest =>
    rw [hstep]
    exact ⟨_, hrest⟩
  | left hstep _ hrest =>
    rw [hstep]
    exact .inl ⟨_, hrest⟩
  | complete hstep hops =>
    rw [hstep]
    exact .inr (clear_of_nil hops).symm

theorem Finishes.reached (h : Finishes objtarget refs walker₀ rbldops walker')
    (hreach : Reaches objtarget refs walker₀ walker) :
    (∃ rest, Finishes objtarget refs walker rest walker') ∨ Reaches objtarget refs walker' walker := by
  induction hreach with
  | start => exact .inl ⟨_, h⟩
  | again _ hstep ih =>
    refine ih.imp (fun ⟨_, hfin⟩ => ?_) (·.again hstep)
    have hafter := hfin.after
    rwa [hstep] at hafter
  | dispatched _ hstep ih =>
    refine ih.imp (fun ⟨_, hfin⟩ => ?_) (·.dispatched hstep)
    have hafter := hfin.after
    rwa [hstep] at hafter
  | left _ hstep ih =>
    rcases ih with ⟨_, hfin⟩ | hpast
    · have hafter := hfin.after
      rw [hstep] at hafter
      rcases hafter with hrest | rfl
      · exact .inl hrest
      · exact .inr .start
    · exact .inr (hpast.left hstep)

theorem Reaches.trans (h : Reaches objtarget refs walker₀ walker)
    (h' : Reaches objtarget refs walker walker') : Reaches objtarget refs walker₀ walker' := by
  induction h' with
  | start => exact h
  | again _ hstep ih => exact ih.again hstep
  | dispatched _ hstep ih => exact ih.dispatched hstep
  | left _ hstep ih => exact ih.left hstep

end Marfs.Rman
