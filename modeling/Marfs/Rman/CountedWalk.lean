import Marfs.Gc.Layout
import Marfs.Rman.FullWalk

/-!
# What a full walk counts

A full walk of a layout-consistent stream in which no deletion is in progress counts every file with
an FTAG once (`Walking`), and stays where it is once it left the loop (`Halted`).  A reference
without an FTAG ends the stream; the walk counts it once, or twice where it has ops to dispatch and
finds the reference again (`Walking.untagged_counts`).
-/

namespace Marfs.Rman

open Datastream Tagging Gc

variable {objtarget : Ftag → Option NeLocation} {refs : Refs}

/-! ## Counting references -/

def Refs.counted (refs : Refs) (p : RefFile → Bool) (fileno : Nat) : Nat :=
  (List.range fileno).countP fun i => (refs.file i).any p

namespace Refs

variable {p : RefFile → Bool}

theorem counted_succ (refs : Refs) (p : RefFile → Bool) (fileno : Nat) :
    refs.counted p (fileno + 1) =
      refs.counted p fileno + if (refs.file fileno).any p then 1 else 0 := by
  simp [counted, List.range_succ, List.countP_append, List.countP_singleton]

variable {fileno : Nat}

theorem counted_file {file : RefFile} (h : refs.file fileno = some file) :
    refs.counted p (fileno + 1) = refs.counted p fileno + if p file then 1 else 0 := by
  rw [counted_succ, h, Option.any_some]

theorem counted_gap (n : Nat) (h : ∀ j, fileno ≤ j → j < fileno + n → refs.file j = none) :
    refs.counted p (fileno + n) = refs.counted p fileno := by
  induction n with
  | zero => rfl
  | succ n ih =>
    rw [← Nat.add_assoc, counted_succ, h (fileno + n) (by omega) (by omega),
      ih fun j hlo hhi => h j hlo (by omega)]
    rfl

theorem counted_length (h : ∀ j, fileno ≤ j → refs.file j = none) :
    refs.counted p refs.length = refs.counted p fileno := by
  have hbeh : ∀ j, refs.length ≤ j → refs.file j = none := by
    intro j hj
    rw [file, List.getElem?_eq_none hj]
    rfl
  rcases Nat.le_total fileno refs.length with hle | hle
  · obtain ⟨n, hn⟩ := Nat.exists_eq_add_of_le hle
    rw [hn]
    exact counted_gap n fun j hlo _ => h j hlo
  · obtain ⟨n, hn⟩ := Nat.exists_eq_add_of_le hle
    rw [hn]
    exact (counted_gap n fun j hlo _ => hbeh j hlo).symm

end Refs

/-! ## The last reference -/

section Layout

variable (hs : LayoutConsistent refs)
include hs

variable {i j : Nat} {file : RefFile}

theorem untagged_last (hi : refs.file i = some file) (htag : file.ftag = none) (hlt : i < j) :
    refs.file j = none := by
  induction j using Nat.strong_induction_on with
  | _ j ih =>
    cases hj : refs.file j with
    | none => rfl
    | some file' =>
      obtain ⟨prevno, prevfile, prevtag, hprev, hprevtag, -, hnext, hge⟩ := hs.prev_ge hi hj hlt
      rcases Nat.eq_or_lt_of_le hge with heq | hgt
      · subst heq
        obtain rfl : file = prevfile := Option.some.inj (hi.symm.trans hprev)
        rw [htag] at hprevtag
        cases hprevtag
      · have := ih prevno (by omega) hgt
        rw [hprev] at this
        cases this

theorem next_exists {file' : RefFile} (hi : refs.file i = some file) (hj : refs.file j = some file')
    (hlt : i < j) :
    ∃ next ftag, refs.file (i + (1 + gapLength file)) = some next ∧ file.ftag = some ftag ∧
      ¬ StreamEnds file ftag ∧ i + (1 + gapLength file) ≤ j := by
  induction j using Nat.strong_induction_on generalizing file' with
  | _ j ih =>
    obtain ⟨prevno, prevfile, prevtag, hprev, hprevtag, hends, hnext, hge⟩ := hs.prev_ge hi hj hlt
    rcases Nat.eq_or_lt_of_le hge with heq | hgt
    · subst heq
      obtain rfl : file = prevfile := Option.some.inj (hi.symm.trans hprev)
      exact ⟨file', prevtag, hnext ▸ hj, hprevtag, hends, hnext.ge⟩
    · obtain ⟨next, ftag, hfile, htag, hnot, hle⟩ := ih prevno (by omega) hprev hgt
      exact ⟨next, ftag, hfile, htag, hnot, by omega⟩

theorem counted_next (hi : refs.file i = some file) (p : RefFile → Bool) :
    refs.counted p (i + (1 + gapLength file)) = refs.counted p (i + 1) := by
  rw [← Nat.add_assoc]
  exact Refs.counted_gap _ fun j hlo hhi => hs.gap hi j (by omega) (by omega)

end Layout

/-! ## The full walk -/

/-- What a walk counted when it met every reference up to its current one. -/
structure CountedAll (refs : Refs) (walker : Streamwalker) : Prop where
  filecount : walker.report.filecount = refs.counted (fun _ => true) (walker.fileno + 1)
  fileusage : walker.report.fileusage = refs.counted (·.stat.active) (walker.fileno + 1)

/-- No deletion of the stream is in progress. -/
def NoneInprog (refs : Refs) : Prop :=
  ∀ {fileno file}, refs.file fileno = some file → (file.gctag.getD Gctag.none).inprog = false

/-- A walk with no deletion to recover: none is in progress, or there is no GC threshold. -/
def Idle (refs : Refs) (walker : Streamwalker) : Prop :=
  (NoneInprog refs ∧ walker.gctag.inprog = false) ∨ walker.gcthresh = 0

/-- A full walk that has not left the loop yet: it stands at a file with an FTAG, whose tags it
read, and met every reference up to it. -/
structure Walking (refs : Refs) (walker : Streamwalker) : Prop where
  pull : walker.pullxattrs = true
  idle : Idle refs walker
  counts : CountedAll refs walker
  at_file : ∃ file, refs.file walker.fileno = some file ∧ file.ftag = some walker.ftag ∧
    walker.gctag = file.gctag.getD Gctag.none

/-- A full walk that left the loop: no file with an FTAG follows. -/
structure Halted (refs : Refs) (walker : Streamwalker) : Prop where
  pull : walker.pullxattrs = true
  idle : Idle refs walker
  noops : walker.gcops = [] ∧ walker.rbldops = []
  position : walker.fileno = 0 ∨ walker.ftag.fileno = walker.fileno
  stops : ¬ walker.Continues ∨ walker.GapEnds ∨
    ∀ fileno, fileno = walker.nextno ∨ fileno = walker.fileno + 1 →
      ∀ file, refs.file fileno = some file → file.ftag = none

variable {walker walker' : Streamwalker}

theorem Idle.recover (h : Idle refs walker) : walker.recoverInprog = some walker :=
  Streamwalker.recoverInprog_idle (h.imp_left And.right)

variable {file : RefFile} {thresh : Thresholds} {rebuildloc : Option NeLocation}

theorem Idle.load {fileno : Nat} (h : Idle refs walker) (hfile : refs.file fileno = some file)
    (hgctag : walker'.gctag = file.gctag.getD Gctag.none) (hthr : walker'.gcthresh = walker.gcthresh) :
    Idle refs walker' := by
  rcases h with ⟨hdone, -⟩ | hzero
  · exact .inl ⟨hdone, by rw [hgctag]; exact hdone hfile⟩
  · exact .inr (hthr.trans hzero)

theorem Idle.keep (h : Idle refs walker) (hgctag : walker'.gctag = walker.gctag)
    (hthr : walker'.gcthresh = walker.gcthresh) : Idle refs walker' := by
  rcases h with ⟨hdone, hinprog⟩ | hzero
  · exact .inl ⟨hdone, by rw [hgctag]; exact hinprog⟩
  · exact .inr (hthr.trans hzero)

namespace Walking

variable {walker walker' : Streamwalker}

theorem position (hs : LayoutConsistent refs) (h : Walking refs walker) :
    walker.fileno = 0 ∨ walker.ftag.fileno = walker.fileno := by
  obtain ⟨file, hfile, htag, -⟩ := h.at_file
  exact .inr (hs.fileno_eq hfile htag)

theorem nextno_eq (h : Walking refs walker) {file : RefFile} (hfile : refs.file walker.fileno = some file) :
    walker.nextno = walker.fileno + (1 + gapLength file) := by
  obtain ⟨file', hfile', -, hgctag⟩ := h.at_file
  obtain rfl : file = file' := Option.some.inj (hfile.symm.trans hfile')
  rw [Streamwalker.nextno, hgctag, gapLength]

theorem visit {gcops rbldops : List Opinfo} (hs : LayoutConsistent refs) (h : Walking refs walker)
    (hvisit : walker.FullVisit objtarget refs walker' gcops rbldops) : Walking refs walker' := by
  obtain ⟨file, ftag, hfile, htag, -, hcnts, hload⟩ := hvisit.visited h.pull
  obtain ⟨prev, hprev, -, -⟩ := h.at_file
  have hcnt : walker'.report.filecount = walker.report.filecount + 1 := hcnts.filecount_eq
  have husage : walker'.report.fileusage = walker.report.fileusage +
      if file.stat.active then 1 else 0 := hcnts.fileusage_eq
  refine ⟨hcnts.pullxattrs_eq.trans h.pull,
    h.idle.load hfile hcnts.gctag_eq hcnts.gcthresh_eq, ⟨?_, ?_⟩, file, ?_, ?_, hcnts.gctag_eq⟩
  · rw [hcnts.fileno_eq, Refs.counted_file hfile, h.nextno_eq hprev, counted_next hs hprev,
      hcnt, h.counts.filecount]
    rfl
  · rw [hcnts.fileno_eq, Refs.counted_file hfile, h.nextno_eq hprev, counted_next hs hprev,
      husage, h.counts.fileusage]
  · rw [hcnts.fileno_eq, hfile]
  · rw [hcnts.ftag_eq, hload, htag]

end Walking

namespace Streamwalker

variable {walker walker' : Streamwalker}

variable {tmptag : Ftag}

theorem trailingFile_pending (h : walker.trailingFile tmptag = some walker') :
    walker'.rbldops = walker.rbldops ∧ (walker.collects = false → walker'.gcops = walker.gcops) ∧
      (walker.collects = true → walker'.gcops ≠ []) := by
  unfold trailingFile at h
  split at h
  · rename_i hcoll
    obtain ⟨walker₁, h₁, rfl⟩ := Option.map_eq_some_iff.1 h
    rw [updateDelref_eq] at h₁
    obtain ⟨op, -, rfl⟩ := Option.map_eq_some_iff.1 h₁
    exact ⟨rfl, fun hnot => by simp [hcoll] at hnot, fun _ => putDelref_ne_nil _ _⟩
  · rename_i hcoll
    obtain rfl := Option.some.inj h
    exact ⟨rfl, fun _ => rfl, fun hyes => absurd hyes hcoll⟩

theorem countUntagged_collects (walker : Streamwalker) (file : RefFile) :
    (walker.countUntagged file).collects = file.stat.eligible walker.gcthresh := rfl

/-- An empty chain stays empty. -/
theorem assumeEos_nil (hnil : walker.gcops = []) (h : walker.assumeEos tmptag = some walker') :
    walker' = walker := by
  unfold assumeEos at h
  rw [hnil] at h
  simpa [searchoperations] using h.symm

theorem countUntagged_left {file : RefFile} (huntag : file.ftag = none)
    (htrl : (walker.countUntagged file).trailingFile (walker.ftag.atFile walker.nextno) =
      some walker') :
    walker'.fileno = walker.fileno ∧ walker'.ftag = walker.ftag ∧
      walker'.gctag = file.gctag.getD Gctag.none ∧ walker'.gcthresh = walker.gcthresh ∧
      walker'.pullxattrs = walker.pullxattrs ∧
      walker'.report.filecount = walker.report.filecount + 1 ∧
      walker'.report.fileusage = walker.report.fileusage := by
  have htally := trailingFile_keeps _ _ _ htrl
  have hftag : walker'.ftag = (walker.countUntagged file).ftag := tally_ftag htally
  have hfno : walker'.fileno = (walker.countUntagged file).fileno := tally_fileno htally
  have hthr : walker'.gcthresh = (walker.countUntagged file).gcthresh := tally_gcthresh htally
  have hpull : walker'.pullxattrs = (walker.countUntagged file).pullxattrs :=
    tally_pullxattrs htally
  have husage : walker'.report.fileusage = (walker.countUntagged file).report.fileusage :=
    tally_fileusage htally
  refine ⟨hfno, ?_, tally_gctag htally, hthr, hpull, tally_filecount htally, husage⟩
  rw [hftag]
  simp [countUntagged, loadFile, huntag]

variable (hs : LayoutConsistent refs)
include hs

theorem FullLeave.halts (hpull : walker.pullxattrs = true) (hidle : Idle refs walker)
    (hpos : walker.fileno = 0 ∨ walker.ftag.fileno = walker.fileno)
    (hnext : walker.Continues → ¬ walker.GapEnds → ∀ file, refs.file walker.nextno = some file →
      file.ftag = none → ∀ file', refs.file (walker.fileno + 1) = some file' → file'.ftag = none)
    (h : FullLeave refs walker walker') : Halted refs { walker' with gcops := [], rbldops := [] } := by
  cases h with
  | ended hends heq =>
    subst heq
    exact ⟨hpull, hidle, ⟨rfl, rfl⟩, hpos, .inl hends⟩
  | gctagEos hcont heos heq =>
    subst heq
    exact ⟨hpull, hidle, ⟨rfl, rfl⟩, hpos, .inr (.inl heos)⟩
  | untagged hcont heos file hfile huntag htrl =>
    obtain ⟨hfno, hftag, hgctag, hthr, hpull', -, -⟩ :=
      countUntagged_left huntag htrl
    have hgap : walker'.gctag.refcnt = 0 := by
      rw [hgctag]
      exact hs.untagged hfile huntag
    refine ⟨hpull'.trans hpull, hidle.load hfile hgctag hthr, ⟨rfl, rfl⟩, ?_, .inr (.inr ?_)⟩
    · change walker'.fileno = 0 ∨ walker'.ftag.fileno = walker'.fileno
      rw [hfno, hftag]
      exact hpos
    · intro fileno hno file' hfile'
      have hsucc : fileno = walker.fileno + 1 := by
        change fileno = walker'.fileno + (1 + walker'.gctag.refcnt) ∨
          fileno = walker'.fileno + 1 at hno
        rw [hfno, hgap] at hno
        omega
      exact hnext hcont heos file hfile huntag file' (hsucc ▸ hfile')
  | missing hcont heos hmiss hne hfin walker₁ hass heq =>
    subst heq
    have htally := assumeEos_keeps _ _ _ hass
    have hgctag : walker₁.gctag = walker.gctag := tally_gctag htally
    have hthr : walker₁.gcthresh = walker.gcthresh := tally_gcthresh htally
    refine ⟨(tally_pullxattrs htally).trans hpull, hidle.keep hgctag hthr, ⟨rfl, rfl⟩, ?_,
      .inl fun h => ?_⟩
    · change walker₁.fileno = 0 ∨ walker₁.ftag.fileno = walker₁.fileno
      rw [tally_fileno htally, tally_ftag htally]
      exact hpos
    · cases h.1

end Streamwalker

theorem Halted.not_visit {walker walker' : Streamwalker} {gcops rbldops : List Opinfo}
    (h : Halted refs walker) : ¬ walker.FullVisit objtarget refs walker' gcops rbldops := by
  rintro ⟨hcont, heos, file, ftag, hfile, htag, -⟩
  rcases h.stops with hends | hgap | hstop
  · exact hends hcont
  · exact heos hgap
  · rw [hstop _ (.inl rfl) file hfile] at htag
    cases htag

section FullWalk

variable (hs : LayoutConsistent refs)
include hs

variable {walker walker' : Streamwalker} {rbldops : List Opinfo}

theorem Walking.halts (h : Walking refs walker) (hleav : walker.FullLeave refs walker') :
    Halted refs { walker' with gcops := [], rbldops := [] } := by
  obtain ⟨file, hfile, -, -⟩ := h.at_file
  refine hleav.halts hs h.pull h.idle (h.position hs) ?_
  intro hcont heos next hnext huntag file' hfile'
  rw [h.nextno_eq hfile] at hnext
  by_cases hgap : gapLength file = 0
  · rw [hgap] at hnext
    obtain rfl : next = file' := Option.some.inj (hnext.symm.trans hfile')
    exact huntag
  · rw [hs.gap hfile (walker.fileno + 1) (by omega) (by omega)] at hfile'
    cases hfile'

theorem Halted.halts (h : Halted refs walker) (hleav : walker.FullLeave refs walker') :
    Halted refs { walker' with gcops := [], rbldops := [] } := by
  refine hleav.halts hs h.pull h.idle h.position ?_
  intro hcont heos next hnext huntag file' hfile'
  rcases h.stops with hends | hgap | hstop
  · exact absurd hcont hends
  · exact absurd hgap heos
  · exact hstop _ (.inr rfl) file' hfile'

variable (objtarget) in
theorem fullTurn (h : Walking refs walker ∨ Halted refs walker) :
    match walker.iterateStep objtarget refs with
    | .failed => True
    | .left walker' => walker.FullLeave refs walker' ∧
        Halted refs { walker' with gcops := [], rbldops := [] }
    | .again walker' => walker.FullVisit objtarget refs walker' [] [] ∧ Walking refs walker'
    | .dispatched walker' gcops rbldops =>
        walker.FullVisit objtarget refs walker' gcops rbldops ∧ Walking refs walker' := by
  have hvisit : ∀ {walker' gcops rbldops}, walker.FullVisit objtarget refs walker' gcops rbldops →
      Walking refs walker' := by
    intro walker' gcops rbldops hvisit
    rcases h with h | h
    · exact h.visit hs hvisit
    · exact absurd hvisit h.not_visit
  have hleav : ∀ {walker'}, walker.FullLeave refs walker' →
      Halted refs { walker' with gcops := [], rbldops := [] } := by
    intro walker' hleav
    rcases h with h | h
    · exact h.halts hs hleav
    · exact h.halts hs hleav
  have hcases : match walker.iterateStep objtarget refs with
      | .failed => True
      | .left walker' => walker.FullLeave refs walker'
      | .again walker' => walker.FullVisit objtarget refs walker' [] []
      | .dispatched walker' gcops rbldops =>
          walker.FullVisit objtarget refs walker' gcops rbldops := by
    rcases h with h | h
    · exact Streamwalker.iterateStep_full h.pull h.idle.recover (h.position hs)
    · exact Streamwalker.iterateStep_full h.pull h.idle.recover h.position
  cases hstep : walker.iterateStep objtarget refs with
  | failed => trivial
  | left walker' =>
    rw [hstep] at hcases
    exact ⟨hcases, hleav hcases⟩
  | again walker' =>
    rw [hstep] at hcases
    exact ⟨hcases, hvisit hcases⟩
  | dispatched walker' gcops rbldops =>
    rw [hstep] at hcases
    exact ⟨hcases, hvisit hcases⟩

theorem Reaches.full (h : Walking refs walker ∨ Halted refs walker)
    (hreach : Reaches objtarget refs walker walker') : Walking refs walker' ∨ Halted refs walker' := by
  induction hreach with
  | start => exact h
  | again _ hstep ih =>
    have hturn := fullTurn objtarget hs ih
    rw [hstep] at hturn
    exact .inl hturn.2
  | dispatched _ hstep ih =>
    have hturn := fullTurn objtarget hs ih
    rw [hstep] at hturn
    exact .inl hturn.2
  | left _ hstep ih =>
    have hturn := fullTurn objtarget hs ih
    rw [hstep] at hturn
    exact .inr hturn.2

theorem Reaches.halted (h : Halted refs walker) (hreach : Reaches objtarget refs walker walker') :
    Halted refs walker' := by
  induction hreach with
  | start => exact h
  | again _ hstep ih =>
    have hturn := fullTurn objtarget hs (.inr ih)
    rw [hstep] at hturn
    exact absurd hturn.1 ih.not_visit
  | dispatched _ hstep ih =>
    have hturn := fullTurn objtarget hs (.inr ih)
    rw [hstep] at hturn
    exact absurd hturn.1 ih.not_visit
  | left _ hstep ih =>
    have hturn := fullTurn objtarget hs (.inr ih)
    rw [hstep] at hturn
    exact hturn.2

theorem Finishes.halted (hw : Walking refs walker ∨ Halted refs walker)
    (h : Finishes objtarget refs walker rbldops walker') : Halted refs walker' := by
  induction h with
  | again hstep _ ih =>
    have hturn := fullTurn objtarget hs hw
    rw [hstep] at hturn
    exact ih (.inl hturn.2)
  | dispatched hstep _ ih =>
    have hturn := fullTurn objtarget hs hw
    rw [hstep] at hturn
    exact ih (.inl hturn.2)
  | left hstep _ _ ih =>
    have hturn := fullTurn objtarget hs hw
    rw [hstep] at hturn
    exact ih (.inr hturn.2)
  | complete hstep hops =>
    have hturn := fullTurn objtarget hs hw
    rw [hstep] at hturn
    have hhalt := hturn.2
    rwa [clear_of_nil hops] at hhalt

theorem Finishes.first_left (hw : Walking refs walker) (h : Finishes objtarget refs walker rbldops walker') :
    ∃ last walker₁, Reaches objtarget refs walker last ∧ Walking refs last ∧
      (∃ rest, Finishes objtarget refs last rest walker') ∧ last.iterateStep objtarget refs = .left walker₁ := by
  induction h with
  | again hstep _ ih =>
    have hturn := fullTurn objtarget hs (.inl hw)
    rw [hstep] at hturn
    obtain ⟨last, walker₁, hreach, hlast⟩ := ih hturn.2
    exact ⟨last, walker₁, (Reaches.start.again hstep).trans hreach, hlast⟩
  | dispatched hstep _ ih =>
    have hturn := fullTurn objtarget hs (.inl hw)
    rw [hstep] at hturn
    obtain ⟨last, walker₁, hreach, hlast⟩ := ih hturn.2
    exact ⟨last, walker₁, (Reaches.start.dispatched hstep).trans hreach, hlast⟩
  | left hstep hops hrest _ => exact ⟨_, _, .start, hw, ⟨_, .left hstep hops hrest⟩, hstep⟩
  | complete hstep hops => exact ⟨_, _, .start, hw, ⟨_, .complete hstep hops⟩, hstep⟩

theorem Walking.continues (h : Walking refs walker) {next : RefFile}
    (hnext : refs.file walker.nextno = some next) : walker.Continues ∧ ¬ walker.GapEnds := by
  obtain ⟨file, hfile, htag, hgctag⟩ := h.at_file
  obtain ⟨-, ftag, -, htag', hends, -⟩ := next_exists hs hfile hnext
    (by rw [Streamwalker.nextno]; omega)
  obtain rfl : walker.ftag = ftag := Option.some.inj (htag.symm.trans htag')
  simp only [StreamEnds, not_or, Bool.not_eq_true] at hends
  refine ⟨⟨hends.1, hends.2.1⟩, fun hgap => ?_⟩
  have heos := hgap.2
  rw [hgctag, hends.2.2] at heos
  cases heos

theorem Finishes.missing_counts (hw : Halted refs walker)
    (h : Finishes objtarget refs walker rbldops walker') (hnext : refs.file walker.nextno = none) :
    walker'.report.filecount = walker.report.filecount ∧
      walker'.report.fileusage = walker.report.fileusage := by
  have hleft : ∀ {walker₁}, walker.FullLeave refs walker₁ →
      (walker₁.gcops = [] ∧ walker₁.rbldops = []) ∧
        walker₁.report.filecount = walker.report.filecount ∧
        walker₁.report.fileusage = walker.report.fileusage := by
    intro walker₁ hleav
    cases hleav with
    | ended _ heq => subst heq; exact ⟨hw.noops, rfl, rfl⟩
    | gctagEos _ _ heq => subst heq; exact ⟨hw.noops, rfl, rfl⟩
    | untagged _ _ file hfile _ _ => rw [hnext] at hfile; cases hfile
    | missing _ _ _ _ _ walker₂ hass heq =>
      obtain rfl := Streamwalker.assumeEos_nil hw.noops.1 hass
      subst heq
      exact ⟨hw.noops, rfl, rfl⟩
  have hturn := fullTurn objtarget hs (.inr hw)
  cases h with
  | again hstep _ => rw [hstep] at hturn; exact absurd hturn.1 hw.not_visit
  | dispatched hstep _ => rw [hstep] at hturn; exact absurd hturn.1 hw.not_visit
  | left hstep hops _ => rw [hstep] at hturn; exact absurd (hleft hturn.1).1 hops
  | complete hstep _ => rw [hstep] at hturn; exact (hleft hturn.1).2

variable {file : RefFile} {walker₁ : Streamwalker}

omit hs in
theorem leave_untagged (hcont : walker.Continues) (hgap : ¬ walker.GapEnds)
    (hfile : refs.file walker.nextno = some file) (hleav : walker.FullLeave refs walker₁) :
    file.ftag = none ∧ (walker.countUntagged file).trailingFile
      (walker.ftag.atFile walker.nextno) = some walker₁ := by
  cases hleav with
  | ended hends _ => exact absurd hcont hends
  | gctagEos _ heos _ => exact absurd heos hgap
  | untagged _ _ file' hfile' huntag htrl =>
    obtain rfl : file = file' := Option.some.inj (hfile.symm.trans hfile')
    exact ⟨huntag, htrl⟩
  | missing _ _ hmiss _ _ _ _ _ => rw [hfile] at hmiss; cases hmiss

/-- A walk in front of a reference without an FTAG, where no gap is left to skip. -/
structure AtUntagged (refs : Refs) (walker : Streamwalker) (file : RefFile) : Prop where
  nogap : walker.gctag.refcnt = 0
  continues : walker.Continues
  next : refs.file walker.nextno = some file
  untagged : file.ftag = none

omit hs in
theorem AtUntagged.not_gapEnds (h : AtUntagged refs walker file) :
    ¬ walker.GapEnds := fun hgap => hgap.1 h.nogap

/-- The walk is back in front of the reference once its ops are dispatched. -/
theorem AtUntagged.left (h : AtUntagged refs walker file) (hleav : walker.FullLeave refs walker₁) :
    AtUntagged refs { walker₁ with gcops := [], rbldops := [] } file := by
  obtain ⟨-, htrl⟩ := leave_untagged h.continues h.not_gapEnds h.next hleav
  obtain ⟨hfno, hftag, hgctag, -⟩ := Streamwalker.countUntagged_left h.untagged htrl
  have hrefcnt : walker₁.gctag.refcnt = 0 := by
    rw [hgctag]
    exact hs.untagged h.next h.untagged
  refine ⟨hrefcnt, ?_, ?_, h.untagged⟩
  · change walker₁.ftag.endofstream = false ∧ walker₁.ftag.unfinalized = false
    rw [hftag]
    exact h.continues
  · have hno : ({ walker₁ with gcops := [], rbldops := [] } : Streamwalker).nextno =
        walker.nextno := by
      change walker₁.fileno + (1 + walker₁.gctag.refcnt) = walker.fileno + (1 + walker.gctag.refcnt)
      rw [hfno, hrefcnt, h.nogap]
    rw [hno, h.next]

/-- A walk never gets past a reference without an FTAG that is to be collected: each call finds it
again. -/
theorem AtUntagged.not_eligible (hw : Walking refs walker ∨ Halted refs walker)
    (h : AtUntagged refs walker file) (hfin : Finishes objtarget refs walker rbldops walker') :
    file.stat.eligible walker.gcthresh = false := by
  induction hfin with
  | again hstep _ _ =>
    have hturn := fullTurn objtarget hs hw
    rw [hstep] at hturn
    obtain ⟨-, -, file', ftag, hfile', htag, -⟩ := hturn.1
    obtain rfl : file = file' := Option.some.inj (h.next.symm.trans hfile')
    rw [h.untagged] at htag
    cases htag
  | dispatched hstep _ _ =>
    have hturn := fullTurn objtarget hs hw
    rw [hstep] at hturn
    obtain ⟨-, -, file', ftag, hfile', htag, -⟩ := hturn.1
    obtain rfl : file = file' := Option.some.inj (h.next.symm.trans hfile')
    rw [h.untagged] at htag
    cases htag
  | @left walker walker₁ _ _ hstep hops _ ih =>
    have hturn := fullTurn objtarget hs hw
    rw [hstep] at hturn
    have hth : walker₁.gcthresh = walker.gcthresh :=
      (Streamwalker.countUntagged_left h.untagged
        (leave_untagged h.continues h.not_gapEnds h.next hturn.1).2).2.2.2.1
    rw [← hth]
    exact ih (.inr hturn.2) (h.left hs hturn.1)
  | complete hstep hops =>
    have hturn := fullTurn objtarget hs hw
    rw [hstep] at hturn
    obtain ⟨-, htrl⟩ := leave_untagged h.continues h.not_gapEnds h.next hturn.1
    obtain ⟨-, -, hcoll⟩ := Streamwalker.trailingFile_pending htrl
    rw [Streamwalker.countUntagged_collects] at hcoll
    by_contra helig
    exact hcoll (by simpa using helig) hops.1

theorem AtUntagged.counts (hw : Halted refs walker) (h : AtUntagged refs walker file)
    (hfin : Finishes objtarget refs walker rbldops walker') :
    walker'.report.filecount = walker.report.filecount + 1 ∧
      walker'.report.fileusage = walker.report.fileusage := by
  have helig := h.not_eligible hs (.inr hw) hfin
  have hturn := fullTurn objtarget hs (.inr hw)
  cases hfin with
  | again hstep _ => rw [hstep] at hturn; exact absurd hturn.1 hw.not_visit
  | dispatched hstep _ => rw [hstep] at hturn; exact absurd hturn.1 hw.not_visit
  | left hstep hops _ =>
    rw [hstep] at hturn
    obtain ⟨-, htrl⟩ := leave_untagged h.continues h.not_gapEnds h.next hturn.1
    obtain ⟨hrbld, hgc, -⟩ := Streamwalker.trailingFile_pending htrl
    exact absurd ⟨(hgc helig).trans hw.noops.1, hrbld.trans hw.noops.2⟩ hops
  | complete hstep _ =>
    rw [hstep] at hturn
    obtain ⟨-, htrl⟩ := leave_untagged h.continues h.not_gapEnds h.next hturn.1
    obtain ⟨-, -, -, -, -, hcnt, husage⟩ := Streamwalker.countUntagged_left h.untagged htrl
    exact ⟨hcnt, husage⟩

/-- What a full walk adds for a reference without an FTAG: it counts the reference once, or twice
where it dispatches ops first and then finds the reference again. -/
theorem Walking.untagged_counts (hw : Walking refs walker) (hfile : refs.file walker.nextno = some file)
    (huntag : file.ftag = none) (hfin : Finishes objtarget refs walker rbldops walker') :
    walker'.report.fileusage = walker.report.fileusage ∧
      walker'.report.filecount = walker.report.filecount +
        if walker.gctag.refcnt ≠ 0 ∨ (walker.gcops = [] ∧ walker.rbldops = []) then 1 else 2 := by
  obtain ⟨hcont, hgap⟩ := hw.continues hs hfile
  have hturn := fullTurn objtarget hs (.inl hw)
  have hno : ∀ {walker₁ gcops rbldops},
      ¬ walker.FullVisit objtarget refs walker₁ gcops rbldops := by
    rintro walker₁ gcops rbldops ⟨-, -, file', ftag, hfile', htag, -⟩
    obtain rfl : file = file' := Option.some.inj (hfile.symm.trans hfile')
    rw [huntag] at htag
    cases htag
  cases hfin with
  | again hstep _ => rw [hstep] at hturn; exact absurd hturn.1 hno
  | dispatched hstep _ => rw [hstep] at hturn; exact absurd hturn.1 hno
  | @left _ walker₁ _ _ hstep hops hrest =>
    rw [hstep] at hturn
    obtain ⟨-, htrl⟩ := leave_untagged hcont hgap hfile hturn.1
    obtain ⟨hfno, -, hgctag, -, -, hcnt, husage⟩ :=
      Streamwalker.countUntagged_left huntag htrl
    by_cases hrefcnt : walker.gctag.refcnt = 0
    · -- nothing was skipped: the next call finds the same reference
      have hat : AtUntagged refs walker file := ⟨hrefcnt, hcont, hfile, huntag⟩
      have helig := hat.not_eligible hs (.inl hw) (.left hstep hops hrest)
      obtain ⟨hcnt', husage'⟩ := (hat.left hs hturn.1).counts hs hturn.2 hrest
      have hpend : ¬ (walker.gcops = [] ∧ walker.rbldops = []) := by
        intro hnone
        obtain ⟨hrbld, hgc, -⟩ := Streamwalker.trailingFile_pending htrl
        exact hops ⟨(hgc helig).trans hnone.1, hrbld.trans hnone.2⟩
      refine ⟨husage'.trans husage, ?_⟩
      rw [if_neg (by simp [hrefcnt, hpend]), hcnt']
      exact congrArg (· + 1) hcnt
    · -- the gap is forgotten: the next call finds nothing right behind the file
      obtain ⟨prev, hprev, -, hprevgctag⟩ := hw.at_file
      have hmiss : refs.file
          ({ walker₁ with gcops := [], rbldops := [] } : Streamwalker).nextno = none := by
        have hnext : ({ walker₁ with gcops := [], rbldops := [] } : Streamwalker).nextno =
            walker.fileno + 1 := by
          change walker₁.fileno + (1 + walker₁.gctag.refcnt) = walker.fileno + 1
          have hzero : walker₁.gctag.refcnt = 0 := by
            rw [hgctag]
            exact hs.untagged hfile huntag
          rw [hfno, hzero]
        rw [hnext]
        have hgaplen : gapLength prev ≠ 0 := by rwa [gapLength, ← hprevgctag]
        exact hs.gap hprev _ (by omega) (by omega)
      obtain ⟨hcnt', husage'⟩ := hrest.missing_counts hs hturn.2 hmiss
      refine ⟨husage'.trans husage, ?_⟩
      rw [if_pos (.inl hrefcnt), hcnt']
      exact hcnt
  | complete hstep hops =>
    rw [hstep] at hturn
    obtain ⟨-, htrl⟩ := leave_untagged hcont hgap hfile hturn.1
    obtain ⟨-, -, -, -, -, hcnt, husage⟩ := Streamwalker.countUntagged_left huntag htrl
    obtain ⟨hrbld, hgc, hcoll⟩ := Streamwalker.trailingFile_pending htrl
    have helig : (walker.countUntagged file).collects = false := by
      by_contra helig
      exact hcoll (by simpa using helig) hops.1
    refine ⟨husage, ?_⟩
    rw [if_pos (.inr ⟨(hgc helig).symm.trans hops.1, hrbld.symm.trans hops.2⟩)]
    exact hcnt

end FullWalk

/-! ## The end of the stream -/

/-- The last file with an FTAG, and why a walk may stop there: it ends the stream, its GCTAG does, a
reference without an FTAG follows, or it is a later file that was finalized. -/
structure LastFile (refs : Refs) (last : Nat) (file : RefFile) (ftag : Ftag) : Prop where
  file_eq : refs.file last = some file
  tag_eq : file.ftag = some ftag
  final : ∀ {j next}, last < j → refs.file j = some next →
    j = last + (1 + gapLength file) ∧ next.ftag = none
  stops : ftag.endofstream = true ∨ ftag.unfinalized = true ∨
    (gapLength file ≠ 0 ∧ (file.gctag.getD Gctag.none).eos = true) ∨
    (∃ next, refs.file (last + (1 + gapLength file)) = some next) ∨
    (last ≠ 0 ∧ ftag.state.data = .fin)

theorem LastFile.untagged_next {last j : Nat} {next : RefFile} {ftag : Ftag} (hs : LayoutConsistent refs)
    (h : LastFile refs last file ftag) (hj : refs.file j = some next) (huntag : next.ftag = none) :
    j = last + (1 + gapLength file) := by
  rcases Nat.lt_trichotomy j last with hlt | heq | hlt
  · have hgone := untagged_last hs hj huntag hlt
    rw [h.file_eq] at hgone
    cases hgone
  · rw [heq, h.file_eq] at hj
    obtain rfl := Option.some.inj hj
    rw [h.tag_eq] at huntag
    cases huntag
  · exact (h.final hlt hj).1

theorem Walking.lastFile {walker walker' : Streamwalker} (hs : LayoutConsistent refs)
    (hw : Walking refs walker) (hleav : walker.FullLeave refs walker') :
    ∃ file, LastFile refs walker.fileno file walker.ftag := by
  obtain ⟨file, hfile, htag, hgctag⟩ := hw.at_file
  have hno := hw.nextno_eq hfile
  have hemp : refs.file walker.nextno = none → ∀ {j next}, walker.fileno < j →
      refs.file j = some next → False := by
    intro hmiss j next hlt hj
    obtain ⟨next', ftag, hnext, -⟩ := next_exists hs hfile hj hlt
    rw [hno, hnext] at hmiss
    cases hmiss
  have hends : StreamEnds file walker.ftag → ∀ {j next}, walker.fileno < j →
      refs.file j = some next → False := by
    intro hends j next hlt hj
    rw [hs.last hfile htag hends hlt] at hj
    cases hj
  cases hleav with
  | ended hnot _ =>
    have hstop : walker.ftag.endofstream = true ∨ walker.ftag.unfinalized = true := by
      by_contra hno
      simp only [not_or, Bool.not_eq_true] at hno
      exact hnot hno
    refine ⟨file, hfile, htag, fun hlt hj => (hends ?_ hlt hj).elim, ?_⟩
    · exact hstop.imp_right .inl
    · exact hstop.imp_right .inl
  | gctagEos _ heos _ =>
    rw [Streamwalker.GapEnds, hgctag] at heos
    exact ⟨file, hfile, htag, fun hlt hj => (hends (.inr (.inr heos.2)) hlt hj).elim,
      .inr (.inr (.inl heos))⟩
  | untagged _ _ next hnext huntag _ =>
    rw [hno] at hnext
    refine ⟨file, hfile, htag, fun {j next'} hlt hj => ?_, .inr (.inr (.inr (.inl ⟨next, hnext⟩)))⟩
    obtain ⟨-, -, -, -, -, hle⟩ := next_exists hs hfile hj hlt
    rcases Nat.eq_or_lt_of_le hle with heq | hlt'
    · subst heq
      obtain rfl : next = next' := Option.some.inj (hnext.symm.trans hj)
      exact ⟨rfl, huntag⟩
    · rw [untagged_last hs hnext huntag hlt'] at hj
      cases hj
  | missing _ _ hmiss hpos hfin _ _ _ =>
    exact ⟨file, hfile, htag, fun hlt hj => (hemp hmiss hlt hj).elim,
      .inr (.inr (.inr (.inr ⟨hpos, hfin⟩)))⟩

/-! ## Opening a full walk -/

theorem counts_opened {walker₀ walker : Streamwalker} (hfile : refs.file 0 = some file)
    (hstat : walker₀.stval = file.stat) (hzero : walker₀.report.filecount = 0 ∧ walker₀.report.fileusage = 0)
    (h : Streamwalker.Counts walker₀ walker 0) : CountedAll refs walker := by
  refine ⟨?_, ?_⟩
  · rw [h.fileno_eq, h.filecount_eq, hzero.1, Refs.counted_file hfile]
    rfl
  · rw [h.fileno_eq, h.fileusage_eq, hzero.2, Refs.counted_file hfile, hstat]
    rfl

theorem openFile_of_opened {walker : Streamwalker}
    (h : processOpenstreamwalker objtarget refs thresh rebuildloc = .opened walker) :
    ∃ file ftag, refs.file 0 = some file ∧ file.ftag = some ftag ∧
      (Streamwalker.initial thresh rebuildloc file ftag).openFile objtarget = some walker := by
  unfold processOpenstreamwalker at h
  split at h
  · cases h
  cases hfile : refs.file 0 with
  | none => rw [hfile] at h; cases h
  | some file =>
    rw [hfile] at h
    dsimp only at h
    cases htag : file.ftag with
    | none => rw [htag] at h; dsimp only at h; split at h <;> cases h
    | some ftag =>
      rw [htag] at h
      dsimp only at h
      cases hopen : (Streamwalker.initial thresh rebuildloc file ftag).openFile objtarget with
      | none => rw [hopen] at h; cases h
      | some walker' =>
        rw [hopen] at h
        obtain rfl := OpenResult.opened.inj h
        exact ⟨file, ftag, rfl, htag, hopen⟩

theorem Walking.opened {walker : Streamwalker} (hidle : NoneInprog refs ∨ thresh.gcthreshold = 0)
    (hthr : thresh.gcthreshold ≠ 0 ∨ thresh.repackthreshold ≠ 0 ∨ thresh.rebuildthreshold ≠ 0)
    (h : processOpenstreamwalker objtarget refs thresh rebuildloc = .opened walker) :
    ∃ file ftag, refs.file 0 = some file ∧ file.ftag = some ftag ∧ Walking refs walker := by
  obtain ⟨file, ftag, hfile, htag, hopen⟩ := openFile_of_opened h
  have hcnts := Streamwalker.openFile_counts hopen
  refine ⟨file, ftag, hfile, htag, ?_, ?_, counts_opened hfile rfl ⟨rfl, rfl⟩ hcnts, file, ?_, ?_,
    hcnts.gctag_eq⟩
  · rw [hcnts.pullxattrs_eq]
    rw [Streamwalker.pullxattrs, Bool.or_eq_true, Bool.or_eq_true, or_assoc]
    exact hthr.imp decide_eq_true (Or.imp decide_eq_true decide_eq_true)
  · rcases hidle with hdone | hzero
    · exact .inl ⟨hdone, by rw [hcnts.gctag_eq]; exact hdone hfile⟩
    · exact .inr (hcnts.gcthresh_eq.trans hzero)
  · rw [hcnts.fileno_eq]
    exact hfile
  · rw [hcnts.ftag_eq, htag]
    rfl

end Marfs.Rman
