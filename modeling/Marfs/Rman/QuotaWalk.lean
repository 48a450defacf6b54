import Marfs.Gc.RefSafety
import Marfs.Rman.CountedWalk

/-!
# The quota walk

With all thresholds zero a walk only counts: it does not read the tags of a file until the next
reference is missing, and then goes back for them.  On a layout-consistent stream in which no
deletion is in progress it counts every reference of the stream (`quotaWalk_counts`).  A full walk
counts the same files, and differs from the quota walk exactly in what it does at a reference
without an FTAG (`quotaWalk_agrees_iff`).
-/

namespace Marfs.Rman

open Datastream Tagging Gc

variable {objtarget : Ftag → Option NeLocation} {refs : Refs}

/-! ## The quota walk -/

namespace Streamwalker

/-- The state of a walk with all thresholds zero, at the head of the loop. -/
structure CountsOnly (walker : Streamwalker) : Prop where
  gcthresh_eq : walker.gcthresh = 0
  repackthresh_eq : walker.repackthresh = 0
  rebuildthresh_eq : walker.rebuildthresh = 0
  gcops_eq : walker.gcops = []
  rbldops_eq : walker.rbldops = []

namespace CountsOnly

variable {walker walker' : Streamwalker}

theorem pullxattrs_eq (h : walker.CountsOnly) : walker.pullxattrs = false := by
  simp [pullxattrs, h.gcthresh_eq, h.repackthresh_eq, h.rebuildthresh_eq]

theorem idle (h : walker.CountsOnly) : walker.recoverInprog = some walker :=
  recoverInprog_idle (.inr h.gcthresh_eq)

theorem collects_eq (h : walker.CountsOnly) : walker.collects = false := by
  simp [collects, RefStat.expired, h.gcthresh_eq]

theorem visitFile (objtarget : Ftag → Option NeLocation) (h : walker.CountsOnly)
    (prevdelzero : Bool) (tgtoffset : Nat) :
    ∃ walker', walker.visitFile objtarget prevdelzero tgtoffset = some (walker', [], []) ∧
      walker'.CountsOnly := by
  have hpull := h.pullxattrs_eq
  have hcollect : ∀ gc : Streamwalker → Option Streamwalker,
      walker.collectWith gc = some walker := by
    intro gc
    rw [collectWith, h.collects_eq]
    rfl
  have hvol : walker.noteVolatile.CountsOnly := by
    unfold noteVolatile
    split
    · exact ⟨h.gcthresh_eq, h.repackthresh_eq, h.rebuildthresh_eq, h.gcops_eq, h.rbldops_eq⟩
    · exact h
  have hnote : (walker.noteVolatile.noteFile false).CountsOnly :=
    ⟨hvol.gcthresh_eq, hvol.repackthresh_eq, hvol.rebuildthresh_eq, hvol.gcops_eq, hvol.rbldops_eq⟩
  have hobj : (walker.noteVolatile.noteFile false).objno = walker.objno := by
    unfold noteVolatile noteFile
    split <;> rfl
  generalize hnoted : walker.noteVolatile.noteFile false = noted at hnote hobj
  have hreb : noted.rebuildFile objtarget walker.objno false = some noted := by
    simp [rebuildFile, hnote.rebuildthresh_eq]
  have hpass : noted.passObjects walker.objno = (noted, []) := by
    simp [passObjects, hobj]
  have hact : (noted.passActive (walker.fileno + tgtoffset)).2 = [] ∧
      (noted.passActive (walker.fileno + tgtoffset)).1.CountsOnly := by
    unfold passActive
    split
    · exact ⟨hnote.gcops_eq, hnote.gcthresh_eq, hnote.repackthresh_eq, hnote.rebuildthresh_eq, rfl,
        hnote.rbldops_eq⟩
    · exact ⟨rfl, hnote⟩
  refine ⟨{ (noted.passActive (walker.fileno + tgtoffset)).1 with
    fileno := walker.fileno + tgtoffset, objno := walker.objno }, ?_, ?_⟩
  · simp only [Streamwalker.visitFile, hpull, Bool.false_and, Bool.false_eq_true, if_false,
      enterFile, Option.bind_eq_bind, Option.bind_some, hcollect, hnoted, hreb, hpass, hact.1]
  · exact ⟨hact.2.gcthresh_eq, hact.2.repackthresh_eq, hact.2.rebuildthresh_eq,
      hact.2.gcops_eq, hact.2.rbldops_eq⟩

theorem again (h : walker.CountsOnly) (hcont : walker.Continues) (hgap : ¬ walker.GapEnds)
    {file : RefFile} (hfile : refs.file walker.nextno = some file) :
    ∃ walker', walker.iterateStep objtarget refs = .again walker' ∧ walker'.CountsOnly ∧
      walker'.fileno = walker.nextno ∧ walker'.ftag = walker.ftag ∧ walker'.gctag = Gctag.none ∧
      walker'.report.filecount = walker.report.filecount + 1 ∧
      walker'.report.fileusage = walker.report.fileusage + if file.stat.active then 1 else 0 := by
  have hpull := h.pullxattrs_eq
  have hload : (walker.loadFile file false).CountsOnly :=
    ⟨h.gcthresh_eq, h.repackthresh_eq, h.rebuildthresh_eq, h.gcops_eq, h.rbldops_eq⟩
  obtain ⟨walker', hvisit, hcnts⟩ := hload.visitFile objtarget walker.gctag.delzero
    (1 + walker.gctag.refcnt)
  have hcnt := visitFile_counts hvisit
  have hgap' : (walker.gctag.refcnt ≠ 0 && walker.gctag.eos) = false := by
    simpa [GapEnds] using hgap
  refine ⟨walker', ?_, hcnts, hcnt.fileno_eq, hcnt.ftag_eq, hcnt.gctag_eq,
    hcnt.filecount_eq, hcnt.fileusage_eq⟩
  rw [nextno] at hfile
  have hpull' := hload.pullxattrs_eq
  simp only [iterateStep, hcont.1, hcont.2, Bool.or_self, Bool.false_eq_true, if_false, h.idle,
    hgap', hfile, hpull, hpull', Bool.false_and, hvisit, afterVisit]

end CountsOnly

end Streamwalker

/-- Where a quota walk stands: at a file whose tags it read, or behind such a file, with the FTAG of
an earlier one. -/
inductive QuotaPlace (refs : Refs) (last : Nat) (walker : Streamwalker) : Prop
  | current (file : RefFile) (hfile : refs.file walker.fileno = some file)
      (htag : file.ftag = some walker.ftag) (hgctag : walker.gctag = file.gctag.getD Gctag.none)
      (hle : walker.fileno ≤ last)
  | stale (file : RefFile) (hfile : refs.file walker.fileno = some file)
      (hgctag : walker.gctag = Gctag.none) (hlt : walker.ftag.fileno < walker.fileno)
      (hcont : walker.Continues)

structure QuotaAt (refs : Refs) (last : Nat) (walker : Streamwalker) : Prop where
  only : walker.CountsOnly
  counts : CountedAll refs walker
  place : QuotaPlace refs last walker

/-- The turns a quota walk may still take: two for each reference number that is left. -/
def quotaTurns (refs : Refs) (walker : Streamwalker) : Nat :=
  2 * (refs.length - walker.fileno) + if walker.ftag.fileno = walker.fileno then 0 else 1

/-- A walk that counted every reference of the stream, and has nothing left to dispatch. -/
structure QuotaEnd (refs : Refs) (walker : Streamwalker) : Prop where
  noops : walker.gcops = [] ∧ walker.rbldops = []
  filecount : walker.report.filecount = refs.counted (fun _ => true) refs.length
  fileusage : walker.report.fileusage = refs.counted (·.stat.active) refs.length

section QuotaWalk

variable {last : Nat} {file : RefFile} {ftag : Ftag} {walker : Streamwalker}

theorem QuotaPlace.file_lt (h : QuotaPlace refs last walker) : walker.fileno < refs.length := by
  cases h with
  | current file hfile _ _ _ => exact Refs.file_lt hfile
  | stale file hfile _ _ _ => exact Refs.file_lt hfile

/-- The counts are complete where nothing follows. -/
theorem QuotaAt.ends (h : QuotaAt refs last walker) (hemp : ∀ j, walker.fileno < j → refs.file j = none) :
    QuotaEnd refs walker := by
  refine ⟨⟨h.only.gcops_eq, h.only.rbldops_eq⟩, ?_, ?_⟩
  · rw [h.counts.filecount]
    exact (Refs.counted_length fun j hj => hemp j (by omega)).symm
  · rw [h.counts.fileusage]
    exact (Refs.counted_length fun j hj => hemp j (by omega)).symm

variable (objtarget) in
theorem QuotaAt.advance (h : QuotaAt refs last walker) (hcont : walker.Continues) (hgap : ¬ walker.GapEnds)
    (hle : walker.ftag.fileno ≤ walker.fileno) (hskip : ∀ p : RefFile → Bool,
      refs.counted p walker.nextno = refs.counted p (walker.fileno + 1)) {next : RefFile}
    (hnext : refs.file walker.nextno = some next) :
    ∃ walker', walker.iterateStep objtarget refs = .again walker' ∧ QuotaAt refs last walker' ∧
      quotaTurns refs walker' < quotaTurns refs walker := by
  obtain ⟨walker', hstep, honly, hfno, hftag, hgctag, hcnt, husage⟩ :=
    h.only.again hcont hgap hnext
  have hbeh : walker.fileno < walker.nextno := by
    rw [Streamwalker.nextno]
    omega
  refine ⟨walker', hstep, ⟨honly, ⟨?_, ?_⟩, .stale next ?_ hgctag ?_ ?_⟩, ?_⟩
  · rw [hfno, Refs.counted_file hnext, hskip, hcnt, h.counts.filecount]
    rfl
  · rw [hfno, Refs.counted_file hnext, hskip, husage, h.counts.fileusage]
  · rw [hfno, hnext]
  · rw [hfno, hftag]
    omega
  · rw [Streamwalker.Continues, hftag]
    exact hcont
  · have hlen := Refs.file_lt hnext
    unfold quotaTurns
    rw [hfno]
    split <;> split <;> omega

theorem QuotaAt.retry (hs : LayoutConsistent refs) (h : QuotaAt refs last walker)
    (hcont : walker.Continues) (hgctag : walker.gctag = Gctag.none)
    (hlt : walker.ftag.fileno < walker.fileno) (hnext : refs.file (walker.fileno + 1) = none)
    (hfile : refs.file walker.fileno = some file) (hlast : file.ftag ≠ none → walker.fileno ≤ last)
    (hfinal : file.ftag = none → ∀ j, walker.fileno < j → refs.file j = none) :
    (∃ walker', walker.iterateStep objtarget refs = .again walker' ∧ QuotaAt refs last walker' ∧
      quotaTurns refs walker' < quotaTurns refs walker) ∨
    ∃ walker', walker.iterateStep objtarget refs = .left walker' ∧ QuotaEnd refs walker' := by
  have hstep : walker.iterateStep objtarget refs =
      walker.missingFile refs (walker.ftag.atFile (walker.fileno + 1)) := by
    simp [Streamwalker.iterateStep, hcont.1, hcont.2, h.only.idle, hgctag, Gctag.none, hnext]
  have hne : walker.fileno ≠ walker.ftag.fileno := by omega
  have hload : (walker.loadFile file true).CountsOnly :=
    ⟨h.only.gcthresh_eq, h.only.repackthresh_eq, h.only.rebuildthresh_eq, h.only.gcops_eq,
      h.only.rbldops_eq⟩
  rw [hstep]
  unfold Streamwalker.missingFile
  rw [if_neg (by omega), if_neg hne, hfile]
  dsimp only
  cases htag : file.ftag with
  | some ftag =>
    have hftag : (walker.loadFile file true).ftag = ftag := by simp [Streamwalker.loadFile, htag]
    refine .inl ⟨walker.loadFile file true, rfl, ⟨hload,
      ⟨h.counts.filecount, h.counts.fileusage⟩, .current file hfile ?_ rfl ?_⟩, ?_⟩
    · rw [hftag, htag]
    · exact hlast (by simp [htag])
    · have hno : ftag.fileno = walker.fileno := hs.fileno_eq hfile htag
      have hsame : (walker.loadFile file true).fileno = walker.fileno := rfl
      unfold quotaTurns
      rw [hftag, hsame, if_pos hno, if_neg (Ne.symm hne)]
      omega
  | none =>
    refine .inr ?_
    rw [Option.isNone_none, if_pos rfl, Streamwalker.trailingFile, hload.collects_eq]
    obtain ⟨hnoops, hcnt, husage⟩ := h.ends (hfinal htag)
    exact ⟨_, rfl, hnoops, hcnt, husage⟩

theorem QuotaAt.leave (h : QuotaAt refs last walker) (hend : LastFile refs last file walker.ftag)
    (hfno : walker.fileno = last) (hno : walker.fileno = walker.ftag.fileno)
    (hgctag : walker.gctag = file.gctag.getD Gctag.none)
    (hemp : ∀ j, walker.fileno < j → refs.file j = none) :
    ∃ walker', walker.iterateStep objtarget refs = .left walker' ∧ QuotaEnd refs walker' := by
  have hquota := h.ends hemp
  by_cases hcont : (walker.ftag.endofstream || walker.ftag.unfinalized) = true
  · exact ⟨walker, by rw [Streamwalker.iterateStep, if_pos hcont], hquota⟩
  by_cases heos : (walker.gctag.refcnt ≠ 0 && walker.gctag.eos) = true
  · refine ⟨walker, ?_, hquota⟩
    rw [Streamwalker.iterateStep, if_neg hcont, h.only.idle]
    simp only [heos, if_true]
  have hmiss : refs.file (walker.fileno + (1 + walker.gctag.refcnt)) = none :=
    hemp _ (by omega)
  have hstep : walker.iterateStep objtarget refs = walker.missingFile refs
      (walker.ftag.atFile (walker.fileno + (1 + walker.gctag.refcnt))) := by
    rw [Streamwalker.iterateStep, if_neg hcont, h.only.idle]
    simp only [heos, Bool.false_eq_true, if_false, hmiss]
  have hfin : walker.fileno ≠ 0 ∧ walker.ftag.state.data = .fin := by
    rcases hend.stops with hstop | hstop | hstop | ⟨next, hstop⟩ | hstop
    · simp [hstop] at hcont
    · simp [hstop] at hcont
    · rw [gapLength, ← hgctag] at hstop
      simp [hstop] at heos
    · rw [hemp _ (by omega)] at hstop
      cases hstop
    · exact ⟨hfno ▸ hstop.1, hstop.2⟩
  have hass : ∀ tmptag, walker.assumeEos tmptag = some walker := by
    intro tmptag
    simp [Streamwalker.assumeEos, h.only.gcthresh_eq]
  refine ⟨{ walker with ftag := { walker.ftag with endofstream := true } }, ?_,
    hquota.noops, hquota.filecount, hquota.fileusage⟩
  rw [hstep, Streamwalker.missingFile, if_neg hfin.1, if_pos hno, if_pos hfin.2, hass]

variable (objtarget) in
theorem QuotaAt.turn (hs : LayoutConsistent refs) (hend : LastFile refs last file ftag)
    (h : QuotaAt refs last walker) :
    (∃ walker', walker.iterateStep objtarget refs = .again walker' ∧ QuotaAt refs last walker' ∧
      quotaTurns refs walker' < quotaTurns refs walker) ∨
    ∃ walker', walker.iterateStep objtarget refs = .left walker' ∧ QuotaEnd refs walker' := by
  cases h.place with
  | current cur hcur htag hgctag hle =>
    have hno : walker.ftag.fileno = walker.fileno := hs.fileno_eq hcur htag
    have hnextno : walker.nextno = walker.fileno + (1 + gapLength cur) := by
      rw [Streamwalker.nextno, hgctag, gapLength]
    cases hnext : refs.file walker.nextno with
    | some next =>
      obtain ⟨-, ftag', -, htag', hends, -⟩ := next_exists hs hcur hnext (by omega)
      obtain rfl : walker.ftag = ftag' := Option.some.inj (htag.symm.trans htag')
      simp only [StreamEnds, not_or, Bool.not_eq_true] at hends
      refine .inl (h.advance objtarget ⟨hends.1, hends.2.1⟩ (fun hgap => ?_) hno.le ?_ hnext)
      · have heos := hgap.2
        rw [hgctag, hends.2.2] at heos
        cases heos
      · intro p
        rw [hnextno]
        exact counted_next hs hcur p
    | none =>
      have hemp : ∀ j, walker.fileno < j → refs.file j = none := by
        intro j hlt
        cases hj : refs.file j with
        | none => rfl
        | some next =>
          obtain ⟨next', -, hnext', -⟩ := next_exists hs hcur hj hlt
          rw [← hnextno, hnext] at hnext'
          cases hnext'
      have hlast : walker.fileno = last := by
        rcases Nat.eq_or_lt_of_le hle with heq | hlt
        · exact heq
        · have := hemp last hlt
          rw [hend.file_eq] at this
          cases this
      have hfile : cur = file := by
        rw [hlast, hend.file_eq] at hcur
        exact (Option.some.inj hcur).symm
      subst hfile
      obtain rfl : walker.ftag = ftag := Option.some.inj (htag.symm.trans hend.tag_eq)
      exact .inr (h.leave hend hlast hno.symm hgctag hemp)
  | stale cur hcur hgctag hlt hcont =>
    have hnextno : walker.nextno = walker.fileno + 1 := by
      rw [Streamwalker.nextno, hgctag]
      rfl
    cases hnext : refs.file (walker.fileno + 1) with
    | some next =>
      refine .inl (h.advance objtarget hcont (fun hgap => hgap.1 ?_) (by omega) ?_
        (hnextno ▸ hnext))
      · rw [hgctag]
        rfl
      · intro p
        rw [hnextno]
    | none =>
      refine h.retry hs hcont hgctag hlt hnext hcur ?_ ?_
      · intro htagged
        by_contra hbeyond
        exact htagged (hend.final (by omega) hcur).2
      · intro huntag j hj
        exact untagged_last hs hcur huntag hj

variable (objtarget) in
theorem QuotaAt.loop (hs : LayoutConsistent refs) (hend : LastFile refs last file ftag) (fuel : Nat)
    (h : QuotaAt refs last walker) (hfuel : quotaTurns refs walker ≤ fuel) :
    ∃ walker', iterateLoop objtarget refs fuel walker = .complete walker' ∧
      QuotaEnd refs walker' := by
  induction fuel generalizing walker with
  | zero =>
    have := h.place.file_lt
    unfold quotaTurns at hfuel
    omega
  | succ fuel ih =>
    rcases h.turn objtarget hs hend with ⟨walker', hstep, h', hlt⟩ | ⟨walker', hstep, hquota⟩
    · obtain ⟨walker'', hloop, hquota⟩ := ih h' (by omega)
      refine ⟨walker'', ?_, hquota⟩
      rw [iterateLoop, hstep]
      exact hloop
    · refine ⟨walker', ?_, hquota⟩
      rw [iterateLoop, hstep]
      simp only [Streamwalker.dispatchRemaining, if_pos hquota.noops]

end QuotaWalk

def quotaThresh : Thresholds :=
  { gcthreshold := 0, repackthreshold := 0, rebuildthreshold := 0, cleanupthreshold := 0 }

theorem quotaWalk_opened (objtarget : Ftag → Option NeLocation) (rebuildloc : Option NeLocation)
    {file : RefFile} {ftag : Ftag} (hfile : refs.file 0 = some file) (htag : file.ftag = some ftag) :
    ∃ walker, processOpenstreamwalker objtarget refs quotaThresh rebuildloc = .opened walker ∧
      walker.CountsOnly ∧
      Streamwalker.Counts (Streamwalker.initial quotaThresh rebuildloc file ftag) walker 0 := by
  have honly : (Streamwalker.initial quotaThresh rebuildloc file ftag).CountsOnly :=
    ⟨rfl, rfl, rfl, rfl, rfl⟩
  generalize hinit : Streamwalker.initial quotaThresh rebuildloc file ftag = walker₀ at honly
  have hvol : walker₀.noteVolatile.CountsOnly := by
    unfold Streamwalker.noteVolatile
    split
    · exact ⟨honly.gcthresh_eq, honly.repackthresh_eq, honly.rebuildthresh_eq, honly.gcops_eq,
        honly.rbldops_eq⟩
    · exact honly
  have hopen : ∃ walker, walker₀.openFile objtarget = some walker ∧ walker.CountsOnly := by
    have hcollect : ∀ gc : Streamwalker → Option Streamwalker,
        walker₀.collectWith gc = some walker₀ := by
      intro gc
      rw [Streamwalker.collectWith, honly.collects_eq]
      rfl
    have hreb : ∀ (walker : Streamwalker) (endobj : Nat) (eos : Bool),
        walker.rebuildthresh = 0 → walker.rebuildFile objtarget endobj eos = some walker := by
      intro walker endobj eos hzero
      simp [Streamwalker.rebuildFile, hzero]
    let report :=
      walker₀.noteVolatile.openReport (datastreamFilebounds walker₀.ftag) walker₀.openEos
    let noted : Streamwalker := { walker₀.noteVolatile with report := report }
    refine ⟨noted.openActive (datastreamFilebounds walker₀.ftag), ?_, ?_⟩
    · simp only [Streamwalker.openFile, hcollect, Option.bind_eq_bind, Option.bind_some]
      change (Streamwalker.rebuildFile objtarget noted (datastreamFilebounds walker₀.ftag)
        walker₀.openEos).bind _ = _
      rw [hreb noted _ _ hvol.rebuildthresh_eq]
      rfl
    · unfold Streamwalker.openActive
      split
      · exact ⟨hvol.gcthresh_eq, hvol.repackthresh_eq, hvol.rebuildthresh_eq, hvol.gcops_eq,
          hvol.rbldops_eq⟩
      · exact ⟨hvol.gcthresh_eq, hvol.repackthresh_eq, hvol.rebuildthresh_eq, hvol.gcops_eq,
          hvol.rbldops_eq⟩
  obtain ⟨walker, hopen, hcnts⟩ := hopen
  have hzero : walker₀.fileno = 0 := by rw [← hinit]; rfl
  refine ⟨walker, ?_, hcnts, hzero ▸ Streamwalker.openFile_counts hopen⟩
  rw [processOpenstreamwalker, if_neg (by simp [quotaThresh]), hfile]
  dsimp only
  rw [htag]
  dsimp only
  rw [hinit, hopen]

/-- Where a full walk meets a reference without an FTAG, the reference is inactive, and the walk has
no op pending or skips a gap in front of it. -/
def TailCounts (objtarget : Ftag → Option NeLocation) (refs : Refs) (thresh : Thresholds)
    (rebuildloc : Option NeLocation) : Prop :=
  ∀ walker₀ walker file,
    processOpenstreamwalker objtarget refs thresh rebuildloc = .opened walker₀ →
    Reaches objtarget refs walker₀ walker → refs.file walker.nextno = some file →
    file.ftag = none →
      file.stat.active = false ∧
        (walker.gctag.refcnt ≠ 0 ∨ (walker.gcops = [] ∧ walker.rbldops = []))

def QuotaAgrees (objtarget : Ftag → Option NeLocation) (refs : Refs)
    (rebuildloc : Option NeLocation) (report : StreamwalkerReport) : Prop :=
  ∃ n walker, (walkStream objtarget refs quotaThresh rebuildloc n).status = .complete walker ∧
    walker.report.filecount = report.filecount ∧ walker.report.fileusage = report.fileusage

section Agreement

variable (hs : LayoutConsistent refs)
include hs

variable {file : RefFile} {walker' walker : Streamwalker} {rbldops : List Opinfo}

theorem quotaWalk_counts (objtarget : Ftag → Option NeLocation) (rebuildloc : Option NeLocation)
    {first : RefFile} {firsttag ftag : Ftag} {last : Nat} (hfst : refs.file 0 = some first)
    (htag : first.ftag = some firsttag) (hend : LastFile refs last file ftag) :
    ∃ walker, QuotaEnd refs walker ∧ ∀ n,
      (walkStream objtarget refs quotaThresh rebuildloc (n + 1)).status = .complete walker := by
  obtain ⟨walker₀, hopen, honly, hcnts⟩ := quotaWalk_opened objtarget rebuildloc hfst htag
  have hat : QuotaAt refs last walker₀ := by
    refine ⟨honly, counts_opened hfst rfl ⟨rfl, rfl⟩ hcnts,
      .current first ?_ ?_ hcnts.gctag_eq ?_⟩
    · rw [hcnts.fileno_eq, hfst]
    · rw [hcnts.ftag_eq, htag]
      rfl
    · rw [hcnts.fileno_eq]
      omega
  have hturns : quotaTurns refs walker₀ ≤ 2 * refs.length + 2 := by
    unfold quotaTurns
    split <;> omega
  obtain ⟨walker, hloop, hquota⟩ := hat.loop objtarget hs hend _ hturns
  refine ⟨walker, hquota, fun n => ?_⟩
  rw [walkStream, hopen]
  dsimp only
  rw [iterateCalls, processIteratestreamwalker, hloop]

theorem Walking.empty_counts (hw : Walking refs walker)
    (hfin : Finishes objtarget refs walker rbldops walker') (hnext : refs.file walker.nextno = none) :
    walker'.report.filecount = walker.report.filecount ∧
      walker'.report.fileusage = walker.report.fileusage := by
  have hno : ∀ {walker₁ gcops rbldops},
      ¬ walker.FullVisit objtarget refs walker₁ gcops rbldops := by
    rintro walker₁ gcops rbldops ⟨-, -, file, ftag, hfile, -⟩
    rw [hnext] at hfile
    cases hfile
  have hleft : ∀ {walker₁}, walker.FullLeave refs walker₁ →
      refs.file ({ walker₁ with gcops := [], rbldops := [] } : Streamwalker).nextno = none ∧
        walker₁.report.filecount = walker.report.filecount ∧
        walker₁.report.fileusage = walker.report.fileusage := by
    intro walker₁ hleav
    cases hleav with
    | ended _ heq => subst heq; exact ⟨hnext, rfl, rfl⟩
    | gctagEos _ _ heq => subst heq; exact ⟨hnext, rfl, rfl⟩
    | untagged _ _ file hfile _ _ => rw [hnext] at hfile; cases hfile
    | missing _ _ _ _ _ walker₂ hass heq =>
      subst heq
      have htally := Streamwalker.assumeEos_keeps _ _ _ hass
      have hcnt : walker₂.report.filecount = walker.report.filecount :=
        Streamwalker.tally_filecount htally
      have husage : walker₂.report.fileusage = walker.report.fileusage :=
        Streamwalker.tally_fileusage htally
      refine ⟨?_, hcnt, husage⟩
      change refs.file (walker₂.fileno + (1 + walker₂.gctag.refcnt)) = none
      rw [Streamwalker.tally_fileno htally, Streamwalker.tally_gctag htally]
      exact hnext
  have hturn := fullTurn objtarget hs (.inl hw)
  cases hfin with
  | again hstep _ => rw [hstep] at hturn; exact absurd hturn.1 hno
  | dispatched hstep _ => rw [hstep] at hturn; exact absurd hturn.1 hno
  | left hstep _ hrest =>
    rw [hstep] at hturn
    obtain ⟨hnext', hcnt, husage⟩ := hleft hturn.1
    obtain ⟨hcnt', husage'⟩ := hrest.missing_counts hs hturn.2 hnext'
    exact ⟨hcnt'.trans hcnt, husage'.trans husage⟩
  | complete hstep _ => rw [hstep] at hturn; exact (hleft hturn.1).2

/-- A full walk that counted every reference did so where it met one without an FTAG: that reference
is inactive, and the walk had nothing to dispatch, or skipped a gap in front of it. -/
theorem Walking.counts_iff (hw : Walking refs walker) (hfin : Finishes objtarget refs walker rbldops walker')
    (hfile : refs.file walker.nextno = some file) (huntag : file.ftag = none) :
    (walker'.report.filecount = refs.counted (fun _ => true) refs.length ∧
        walker'.report.fileusage = refs.counted (·.stat.active) refs.length) ↔
      (walker.gctag.refcnt ≠ 0 ∨ (walker.gcops = [] ∧ walker.rbldops = [])) ∧
        file.stat.active = false := by
  obtain ⟨husage, hcnt⟩ := hw.untagged_counts hs hfile huntag hfin
  obtain ⟨prev, hprev, -, -⟩ := hw.at_file
  have hall : ∀ p : RefFile → Bool, refs.counted p refs.length =
      refs.counted p (walker.fileno + 1) + if p file then 1 else 0 := by
    intro p
    have hlen : refs.counted p refs.length = refs.counted p (walker.nextno + 1) :=
      Refs.counted_length fun j hj => untagged_last hs hfile huntag hj
    rw [hlen, Refs.counted_file hfile, hw.nextno_eq hprev, counted_next hs hprev]
  rw [hall, hall, husage, hcnt, hw.counts.filecount, hw.counts.fileusage]
  constructor
  · rintro ⟨hone, hact⟩
    constructor
    · by_contra hpend
      rw [if_neg hpend, if_pos rfl] at hone
      omega
    · by_contra hactive
      rw [if_pos (by simpa using hactive)] at hact
      omega
  · rintro ⟨hpend, hact⟩
    rw [if_pos hpend, hact]
    exact ⟨rfl, rfl⟩

/-- A quota walk agrees with a full walk exactly when the full walk counts a trailing reference
without an FTAG as the quota walk does. -/
theorem quotaWalk_agrees_iff {thresh : Thresholds} {rebuildloc quotaloc : Option NeLocation} {n : Nat}
    (hdone : NoneInprog refs)
    (hthresh : thresh.gcthreshold ≠ 0 ∨ thresh.repackthreshold ≠ 0 ∨ thresh.rebuildthreshold ≠ 0)
    (h : (walkStream objtarget refs thresh rebuildloc n).status = .complete walker') :
    QuotaAgrees objtarget refs quotaloc walker'.report ↔
      TailCounts objtarget refs thresh rebuildloc := by
  obtain ⟨walker₀, hopen, hfin⟩ := finishes_of_walkStream h
  obtain ⟨first, firsttag, hfirst, htag, hw⟩ := Walking.opened (.inl hdone) hthresh hopen
  obtain ⟨last, walker₁, hreach, hlast, ⟨_, hrest⟩, hstep⟩ := hfin.first_left hs hw
  have hturn := fullTurn objtarget hs (.inl hlast)
  rw [hstep] at hturn
  obtain ⟨file, hend⟩ := hlast.lastFile hs hturn.1
  obtain ⟨quota, hquota, hall⟩ := quotaWalk_counts hs objtarget quotaloc hfirst htag hend
  have hagrees : QuotaAgrees objtarget refs quotaloc walker'.report ↔
      walker'.report.filecount = refs.counted (fun _ => true) refs.length ∧
        walker'.report.fileusage = refs.counted (·.stat.active) refs.length := by
    constructor
    · rintro ⟨m, walker, hcomplete, hcount, husage⟩
      cases m with
      | zero =>
        unfold walkStream at hcomplete
        split at hcomplete <;> cases hcomplete
      | succ m =>
        obtain rfl : quota = walker := WalkStatus.complete.inj ((hall m).symm.trans hcomplete)
        exact ⟨hcount.symm.trans hquota.filecount, husage.symm.trans hquota.fileusage⟩
    · rintro ⟨hcount, husage⟩
      exact ⟨1, quota, hall 0, hquota.filecount.trans hcount.symm,
        hquota.fileusage.trans husage.symm⟩
  rw [hagrees]
  cases hnext : refs.file last.nextno with
  | none =>
    -- nothing is left behind the last file: both walks counted everything
    obtain ⟨hcount, husage⟩ := hlast.empty_counts hs hrest hnext
    have hempty : ∀ j, last.fileno < j → refs.file j = none := by
      intro j hlt
      cases hj : refs.file j with
      | none => rfl
      | some next =>
        have hj' := (hend.final hlt hj).1
        rw [hlast.nextno_eq hend.file_eq, ← hj', hj] at hnext
        cases hnext
    have hall' : ∀ p : RefFile → Bool, refs.counted p refs.length =
        refs.counted p (last.fileno + 1) := fun p =>
      Refs.counted_length fun j hj => hempty j (by omega)
    refine iff_of_true ?_ ?_
    · rw [hcount, husage, hall', hall']
      exact ⟨hlast.counts.filecount, hlast.counts.fileusage⟩
    · intro walker₀' walker file' _ _ hfile' huntagged
      have hno := hend.untagged_next hs hfile' huntagged
      rw [hempty _ (by omega)] at hfile'
      cases hfile'
  | some next =>
    have huntagged : next.ftag = none := (hend.final (by rw [Streamwalker.nextno]; omega) hnext).2
    rw [hlast.counts_iff hs hrest hnext huntagged]
    constructor
    · intro hall' walker₀' walker file' hopen' hreach' hfile' huntagged'
      obtain rfl : walker₀ = walker₀' := OpenResult.opened.inj (hopen.symm.trans hopen')
      have hsame : walker.nextno = last.nextno := by
        rw [hend.untagged_next hs hfile' huntagged', hlast.nextno_eq hend.file_eq]
      obtain rfl : next = file' := Option.some.inj (hnext.symm.trans (hsame ▸ hfile'))
      refine ⟨hall'.2, ?_⟩
      rcases hreach'.full hs (.inl hw) with hwalking | hhalted
      · rcases hfin.reached hreach' with ⟨_, hfin'⟩ | hpast
        · rw [← hlast.counts_iff hs hrest hnext huntagged,
            hwalking.counts_iff hs hfin' hfile' huntagged'] at hall'
          exact hall'.1
        · exact .inr (hpast.halted hs (hfin.halted hs (.inl hw))).noops
      · exact .inr hhalted.noops
    · intro htail
      obtain ⟨hact, hpending⟩ := htail walker₀ last next hopen hreach hnext huntagged
      exact ⟨hpending, hact⟩

end Agreement

/-! ## The calls of a full walk -/

/-- An expired reference without an FTAG comes right behind a file. -/
def Trailing (refs : Refs) (gcthresh : Int) : Prop :=
  ∃ fileno file next, refs.file fileno = some file ∧ gapLength file = 0 ∧
    refs.file (fileno + 1) = some next ∧ next.ftag = none ∧ next.stat.eligible gcthresh = true

/-- Nothing more is to be dispatched. -/
def Quiet (refs : Refs) (walker : Streamwalker) : Prop :=
  Halted refs walker ∧ ∀ walker', walker.FullLeave refs walker' → walker'.gcops = [] ∧ walker'.rbldops = []

section Calls

variable {walker walker' : Streamwalker} {gcops rbldops : List Opinfo}

theorem Walking.advances (h : Walking refs walker ∨ Halted refs walker)
    (hvisit : walker.FullVisit objtarget refs walker' gcops rbldops) :
    walker.fileno < walker'.fileno ∧ walker'.fileno < refs.length ∧ walker'.gcthresh = walker.gcthresh := by
  obtain ⟨_, _, hfile, -, -, hcnts, -⟩ := hvisit.visited (h.elim Walking.pull Halted.pull)
  rw [hcnts.fileno_eq]
  refine ⟨?_, Refs.file_lt hfile, hcnts.gcthresh_eq⟩
  rw [Streamwalker.nextno]
  omega

variable (hs : LayoutConsistent refs)
include hs

theorem Walking.quiet {walker₁ : Streamwalker} (hw : Walking refs walker)
    (hquiet : ¬Trailing refs walker.gcthresh) (hleav : walker.FullLeave refs walker₁) :
    Quiet refs { walker₁ with gcops := [], rbldops := [] } := by
  obtain ⟨file, hfile, -⟩ := hw.at_file
  refine ⟨hw.halts hs hleav, fun walker' hleav' => ?_⟩
  cases hleav' with
  | ended _ heq => subst heq; exact ⟨rfl, rfl⟩
  | gctagEos _ _ heq => subst heq; exact ⟨rfl, rfl⟩
  | missing _ _ _ _ _ walker₂ hass heq =>
    obtain rfl := Streamwalker.assumeEos_nil rfl hass
    subst heq
    exact ⟨rfl, rfl⟩
  | untagged hcont heos next hnext huntag htrl =>
    obtain ⟨hrbld, hgc, -⟩ := Streamwalker.trailingFile_pending htrl
    refine ⟨hgc ?_, hrbld⟩
    rw [Streamwalker.countUntagged_collects, Bool.eq_false_iff]
    intro helig
    cases hleav with
    | ended hends heq => subst heq; exact hends hcont
    | gctagEos _ hgap heq => subst heq; exact heos hgap
    | missing _ _ _ _ _ walker₂ _ heq => subst heq; cases hcont.1
    | untagged _ _ last hlast hlasttag htrl' =>
      obtain ⟨hfno, -, hgctag, hth, -⟩ := Streamwalker.countUntagged_left hlasttag htrl'
      have hgap : walker₁.gctag.refcnt = 0 := hgctag ▸ hs.untagged hlast hlasttag
      have hno : walker₁.fileno + (1 + walker₁.gctag.refcnt) = walker.fileno + 1 := by rw [hfno, hgap]
      change refs.file (walker₁.fileno + (1 + walker₁.gctag.refcnt)) = some next at hnext
      rw [hno] at hnext
      refine hquiet ⟨walker.fileno, file, next, hfile, ?_, hnext, huntag, hth ▸ helig⟩
      by_contra hgap
      rw [hs.gap hfile _ (by omega) (by omega)] at hnext
      cases hnext

theorem Walking.dispatched (fuel : Nat) (hw : Walking refs walker) (hquiet : ¬Trailing refs walker.gcthresh)
    (h : iterateLoop objtarget refs fuel walker = .dispatched walker' gcops rbldops) :
    (Walking refs walker' ∧ walker.fileno < walker'.fileno ∧ walker'.gcthresh = walker.gcthresh) ∨
      Quiet refs walker' := by
  refine iterateLoop_dispatched
    (motive := fun walker => Walking refs walker → ¬Trailing refs walker.gcthresh →
      (Walking refs walker' ∧ walker.fileno < walker'.fileno ∧ walker'.gcthresh = walker.gcthresh) ∨
        Quiet refs walker')
    (fun walker walker₁ hstep ih hw hquiet => ?_) (fun walker hstep hw _ => ?_)
    (fun walker walker₂ hstep _ hcleared _ _ hw hquiet => ?_) fuel h hw hquiet
  all_goals
    have hturn := fullTurn objtarget hs (.inl hw)
    rw [hstep] at hturn
  · obtain ⟨hlt, -, hth⟩ := Walking.advances (.inl hw) hturn.1
    rw [← hth] at hquiet ⊢
    exact (ih hturn.2 hquiet).imp_left fun hon => ⟨hon.1, hlt.trans hon.2.1, hon.2.2⟩
  · obtain ⟨hlt, -, hth⟩ := Walking.advances (.inl hw) hturn.1
    exact .inl ⟨hturn.2, hlt, hth⟩
  · subst hcleared
    exact .inr (hw.quiet hs hquiet hturn.1)

theorem Quiet.not_dispatched (fuel : Nat) (h : Quiet refs walker) :
    iterateLoop objtarget refs fuel walker ≠ .dispatched walker' gcops rbldops := by
  intro hloop
  refine iterateLoop_dispatched (motive := fun walker => ¬Quiet refs walker)
    (fun walker walker₁ hstep _ h => ?_) (fun walker hstep h => ?_)
    (fun walker walker₂ hstep hops _ _ _ h => ?_) fuel hloop h
  all_goals
    have hturn := fullTurn objtarget hs (.inr h.1)
    rw [hstep] at hturn
  · exact h.1.not_visit hturn.1
  · exact h.1.not_visit hturn.1
  · exact hops (h.2 _ hturn.1)

/-- The induction is on the references ahead. -/
theorem Walking.calls (n : Nat) (hw : Walking refs walker) (hquiet : ¬Trailing refs walker.gcthresh)
    (hn : refs.length ≤ n + walker.fileno) :
    (iterateCalls objtarget refs (n + 2) walker).status ≠ .running walker' := by
  induction n generalizing walker with
  | zero =>
    obtain ⟨file, hfile, -⟩ := hw.at_file
    have hlt := Refs.file_lt hfile
    omega
  | succ n ih =>
    unfold iterateCalls
    cases hcall : processIteratestreamwalker objtarget refs walker with
    | dispatched walker₁ gcops rbldops =>
      rcases hw.dispatched hs _ hquiet hcall with ⟨hw₁, hlt, hth⟩ | hdone
      · exact ih hw₁ (hth ▸ hquiet) (by omega)
      · unfold iterateCalls
        cases hcall' : processIteratestreamwalker objtarget refs walker₁ with
        | dispatched walker₂ gcops' rbldops' => exact absurd hcall' (hdone.not_dispatched hs _)
        | _ => simp [hcall']
    | _ => simp

end Calls

/-! ## Streams with a reference that has no FTAG yet -/

/-- A reference its writer created at time 20, and has not tagged yet. -/
def youngFile : RefFile :=
  { stat := { nlink := 1, ctime := 20, size := 0 }, ftag := none, gctag := none }

def miscountedStream : Refs :=
  [some (sampleFile 0 0 true false none), some (sampleFile 1 0 false false none), some youngFile]

theorem miscountedStream_layout : LayoutConsistent miscountedStream ∧ NoneInprog miscountedStream := by
  have hlen : ∀ {fileno file}, miscountedStream.file fileno = some file → fileno < 3 :=
    fun hfile => Refs.file_lt hfile
  refine ⟨⟨?_, ?_, ?_, ?_, ?_⟩, ?_⟩
  · intro fileno file ftag hfile htag
    have hlt := hlen hfile
    interval_cases fileno <;> obtain rfl := Option.some.inj hfile <;> cases htag <;> rfl
  · intro fileno file hfile j hlo hhi
    have hlt := hlen hfile
    interval_cases fileno <;> obtain rfl := Option.some.inj hfile <;>
      (simp [gapLength, sampleFile, youngFile, Gctag.none] at hhi; omega)
  · intro fileno file hfile huntag
    have hlt := hlen hfile
    interval_cases fileno <;> obtain rfl := Option.some.inj hfile <;> rfl
  · intro fileno file ftag file' ftag' hfile htag hfile' htag'
    have hlt := hlen hfile
    interval_cases fileno <;> obtain rfl := Option.some.inj hfile <;> cases htag <;>
      obtain rfl := Option.some.inj hfile' <;> cases htag'
    exact ⟨by decide, fun _ => by decide⟩
  · intro fileno file' hfile' hne
    have hlt := hlen hfile'
    interval_cases fileno
    · exact absurd rfl hne
    · exact ⟨0, _, _, rfl, rfl, by unfold StreamEnds; decide, rfl⟩
    · exact ⟨1, _, _, rfl, rfl, by unfold StreamEnds; decide, rfl⟩
  · intro fileno file hfile
    have hlt := hlen hfile
    interval_cases fileno <;> obtain rfl := Option.some.inj hfile <;> rfl

/-- A GC walk that dispatches the deletion of file 1 finds the young reference again and counts it
twice; the quota walk counts it once. -/
theorem quotaWalk_miscounts :
    LayoutConsistent miscountedStream ∧ NoneInprog miscountedStream ∧ ∃ walker',
      (walkStream (fun _ => none) miscountedStream sampleThresh none 2).status =
        .complete walker' ∧
      ¬ QuotaAgrees (fun _ => none) miscountedStream none walker'.report := by
  refine ⟨miscountedStream_layout.1, miscountedStream_layout.2, ?_⟩
  have hfull : ∃ walker', (walkStream (fun _ => none) miscountedStream sampleThresh none 2).status =
      .complete walker' ∧ walker'.report.filecount = 4 := ⟨_, rfl, by decide⟩
  have hquota : ∃ walker, (walkStream (fun _ => none) miscountedStream quotaThresh none 1).status =
      .complete walker ∧ walker.report.filecount = 3 := ⟨_, rfl, by decide⟩
  obtain ⟨walker', hcomplete, hfour⟩ := hfull
  obtain ⟨quota, hend, hthree⟩ := hquota
  refine ⟨walker', hcomplete, ?_⟩
  rintro ⟨n, walker, hstatus, hcount, -⟩
  cases n with
  | zero => cases hstatus
  | succ n =>
    -- one call of a quota walk reaches the end
    have hsame : (walkStream (fun _ => none) miscountedStream quotaThresh none (n + 1)).status =
        (walkStream (fun _ => none) miscountedStream quotaThresh none 1).status := rfl
    rw [hsame, hend] at hstatus
    obtain rfl := WalkStatus.complete.inj hstatus
    omega

def repackThresh : Thresholds :=
  { gcthreshold := 0, repackthreshold := 10, rebuildthreshold := 0, cleanupthreshold := 0 }

/-- Without a GC threshold nothing is pending there, and both walks count the reference once. -/
theorem miscountedStream_tailCounts :
    (∃ walker', (walkStream (fun _ => none) miscountedStream repackThresh none 1).status =
      .complete walker') ∧
      TailCounts (fun _ => none) miscountedStream repackThresh none := by
  obtain ⟨hlayout, hdone⟩ := miscountedStream_layout
  have hfull : ∃ walker', (walkStream (fun _ => none) miscountedStream repackThresh none 1).status =
      .complete walker' ∧ walker'.report.filecount = 3 ∧ walker'.report.fileusage = 1 :=
    ⟨_, rfl, by decide, by decide⟩
  have hquota : ∃ walker, (walkStream (fun _ => none) miscountedStream quotaThresh none 1).status =
      .complete walker ∧ walker.report.filecount = 3 ∧ walker.report.fileusage = 1 :=
    ⟨_, rfl, by decide, by decide⟩
  obtain ⟨walker', hcomplete, hcount, husage⟩ := hfull
  obtain ⟨quota, hend, hcount', husage'⟩ := hquota
  refine ⟨⟨walker', hcomplete⟩, ?_⟩
  exact (quotaWalk_agrees_iff hlayout hdone (.inr (.inl (by decide))) hcomplete).mp
    ⟨1, quota, hend, hcount'.trans hcount.symm, husage'.trans husage.symm⟩

end Marfs.Rman
