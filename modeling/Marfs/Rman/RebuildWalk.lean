import Marfs.Rman.CountedWalk

/-!
# Location-based rebuilds

A walk with a rebuild threshold and no GC threshold covers an object at the rebuild location in two
places (`CoversAt`): at the visit of an old active file that spans it, and at the visit of the first
file that begins behind it, when some live file ended in it and that first file has an old ctime.  No
object is covered at two visits, and each visit keeps the invariant that the ops cover what the files
up to it cover (`Rebuilding.visit`).
-/

namespace Marfs.Rman

open Datastream Tagging Gc

variable {objtarget : Ftag → Option NeLocation} {refs : Refs}

/-! ## What an op rebuilds -/

def Opinfo.Rebuilds (op : Opinfo) (objno : Nat) : Prop :=
  op.type = .rebuild ∧ op.ftag.objno ≤ objno ∧ objno < op.ftag.objno + op.count

instance (op : Opinfo) (objno : Nat) : Decidable (op.Rebuilds objno) := by
  unfold Opinfo.Rebuilds; infer_instance

def rebuildCount (ops : List Opinfo) (objno : Nat) : Nat :=
  ops.countP fun op => decide (op.Rebuilds objno)

@[simp] theorem rebuildCount_append (ops ops' : List Opinfo) (objno : Nat) :
    rebuildCount (ops ++ ops') objno = rebuildCount ops objno + rebuildCount ops' objno :=
  List.countP_append

@[simp] theorem rebuildCount_cons (op : Opinfo) (ops : List Opinfo) (objno : Nat) :
    rebuildCount (op :: ops) objno =
      rebuildCount ops objno + if op.Rebuilds objno then 1 else 0 := by
  simp [rebuildCount, List.countP_cons]

theorem rebuildCount_countObject {ops ops' : List Opinfo} {ftag : Ftag}
    (h : updateOperation ops .rebuild ftag (countObject ftag) = some ops') (objno : Nat) :
    rebuildCount ops' objno = rebuildCount ops objno + if objno = ftag.objno then 1 else 0 := by
  cases hs : searchoperations ops .rebuild ftag with
  | none =>
    have hops : ops' = { newOperation .rebuild ftag with count := 1 } :: ops := by
      simpa [updateOperation, processIdentifyoperation, hs, countObject, newOperation] using h.symm
    have hnew : ({ newOperation .rebuild ftag with count := 1 } : Opinfo).Rebuilds objno ↔
        objno = ftag.objno := by
      simp only [Opinfo.Rebuilds, newOperation, Opinfo.type, freshExtinfo, true_and]
      omega
    rw [hops, rebuildCount_cons]
    simp only [hnew]
  | some i =>
    obtain ⟨before, op, after, rfl, hp, hupd⟩ := updateOperation_of_search hs
    have hreuse : op.type = .rebuild ∧ ftag.objno = op.ftag.objno + op.count := by
      simpa [reusable] using hp
    have hsum : op.count + op.ftag.objno = ftag.objno := by omega
    have hops : ops' = before ++ { op with count := op.count + 1 } :: after := by
      simpa [hupd, countObject, hsum] using h.symm
    have htype : ({ op with count := op.count + 1 } : Opinfo).type = .rebuild := hreuse.1
    rw [hops]
    simp only [rebuildCount_append, rebuildCount_cons, Opinfo.Rebuilds, hreuse.1, htype, true_and]
    split <;> split <;> split <;> omega

def NeLocation.matches (rebuildloc location : NeLocation) : Bool :=
  (rebuildloc.pod < 0 || rebuildloc.pod == location.pod) &&
    (rebuildloc.cap < 0 || rebuildloc.cap == location.cap) &&
    (rebuildloc.scatter < 0 || rebuildloc.scatter == location.scatter)

namespace Streamwalker

variable {walker walker' : Streamwalker} {location : Nat → NeLocation}

def Targets (walker : Streamwalker) (location : Nat → NeLocation) (objno : Nat) : Prop :=
  walker.rebuildloc.matches (location objno) = true

instance (walker : Streamwalker) (location : Nat → NeLocation) (objno : Nat) :
    Decidable (walker.Targets location objno) := by unfold Targets; infer_instance

theorem rebuildObj_count {tmptag : Ftag} (hloc : objtarget tmptag = some (location tmptag.objno))
    (h : walker.rebuildObj objtarget tmptag = some walker') :
    ∃ rbldops report, walker' = { walker with rbldops := rbldops, report := report } ∧
      ∀ objno, rebuildCount rbldops objno = rebuildCount walker.rbldops objno +
        if walker.Targets location objno ∧ objno = tmptag.objno then 1 else 0 := by
  simp only [rebuildObj, hloc, Option.bind_eq_bind, Option.bind_some] at h
  split at h
  · rename_i htgt
    obtain ⟨rbldops, hupd, h⟩ := Option.bind_eq_some_iff.1 h
    refine ⟨rbldops, _, (Option.some.inj h).symm, fun objno => ?_⟩
    rw [rebuildCount_countObject hupd]
    by_cases hobj : objno = tmptag.objno
    · subst hobj
      have htgt' : walker.Targets location tmptag.objno := htgt
      simp [htgt']
    · simp [hobj]
  · rename_i htgt
    refine ⟨walker.rbldops, walker.report, (Option.some.inj h).symm, fun objno => ?_⟩
    rw [if_neg, Nat.add_zero]
    rintro ⟨hyes, rfl⟩
    exact htgt hyes

theorem rebuildSpan_count (n : Nat) {tmptag : Ftag}
    (hloc : ∀ objno, objtarget (tmptag.atObj objno) = some (location objno))
    (h : rebuildSpan objtarget n walker tmptag = some walker') :
    ∃ rbldops report, walker' = { walker with rbldops := rbldops, report := report } ∧
      ∀ objno, rebuildCount rbldops objno = rebuildCount walker.rbldops objno +
        if walker.Targets location objno ∧ tmptag.objno ≤ objno ∧ objno < tmptag.objno + n
          then 1 else 0 := by
  induction n generalizing walker tmptag with
  | zero =>
    obtain rfl := Option.some.inj h
    refine ⟨walker.rbldops, walker.report, rfl, fun objno => ?_⟩
    rw [if_neg, Nat.add_zero]
    omega
  | succ n ih =>
    simp only [rebuildSpan, Option.bind_eq_bind, Option.bind_eq_some_iff] at h
    obtain ⟨walker₁, hobj, hspan⟩ := h
    obtain ⟨rbldops₁, report₁, rfl, hcnt₁⟩ := rebuildObj_count (hloc tmptag.objno) hobj
    have hloc' : ∀ objno, objtarget ((tmptag.atObj (tmptag.objno + 1)).atObj objno) =
        some (location objno) := hloc
    obtain ⟨rbldops, report, rfl, hcnt⟩ := ih hloc' hspan
    refine ⟨rbldops, report, rfl, fun objno => ?_⟩
    have hsame : ({ walker with rbldops := rbldops₁, report := report₁ } : Streamwalker).Targets
        location objno ↔ walker.Targets location objno := Iff.rfl
    rw [hcnt]
    simp only [hcnt₁, hsame, Ftag.objno_atObj]
    by_cases htgt : walker.Targets location objno
    · simp only [htgt, true_and]
      split <;> split <;> split <;> omega
    · simp [htgt]

theorem live_eq (hgc : walker.gcthresh = 0) :
    (walker.stval.active || walker.assumeactive) = true ↔
      1 < walker.stval.nlink ∨ 0 ≤ walker.stval.ctime := by
  simp [assumeactive, RefStat.active, RefStat.expired, hgc]
  omega

/-- The visit leaves behind an object in which a live file ended, and its own ctime is old. -/
def RebuildsLeft (walker : Streamwalker) (objno : Nat) : Prop :=
  walker.ftag.objno ≠ walker.objno ∧ walker.activefiles ≠ 0 ∧
    walker.stval.ctime < walker.rebuildthresh ∧ objno = walker.objno

def RebuildsSpanned (walker : Streamwalker) (endobj : Nat) (eos : Bool) (objno : Nat) : Prop :=
  1 < walker.stval.nlink ∧ walker.stval.ctime < walker.rebuildthresh ∧
    walker.ftag.objno ≤ objno ∧ (objno < endobj ∨ (eos = true ∧ objno = endobj))

instance (walker : Streamwalker) (objno : Nat) : Decidable (walker.RebuildsLeft objno) := by
  unfold RebuildsLeft; infer_instance

instance (walker : Streamwalker) (endobj : Nat) (eos : Bool) (objno : Nat) :
    Decidable (walker.RebuildsSpanned endobj eos objno) := by
  unfold RebuildsSpanned; infer_instance

theorem objectTransition_count {prevdelzero : Bool} (hgc : walker.gcthresh = 0)
    (hreb : walker.rebuildthresh ≠ 0)
    (hloc : ∀ objno, objtarget (walker.ftag.atObj objno) = some (location objno))
    (h : walker.objectTransition objtarget prevdelzero = some walker') :
    walker'.cursor = { walker.cursor with
        activefiles := walker.transitionActive, objno := walker.ftag.objno } ∧
      walker'.gcops = walker.gcops ∧
      ∀ objno, rebuildCount walker'.rbldops objno = rebuildCount walker.rbldops objno +
        if walker.Targets location objno ∧ walker.RebuildsLeft objno then 1 else 0 := by
  unfold objectTransition at h
  split at h
  · rename_i hobj
    have hcnt : ∃ report, walker.countTransition = { walker with report := report } := by
      unfold countTransition
      split
      · exact ⟨_, rfl⟩
      · exact ⟨walker.report, rfl⟩
    obtain ⟨report₀, hcnt⟩ := hcnt
    have hleav : ({ walker with report := report₀ } : Streamwalker).leavePrevObj prevdelzero =
        some { walker with report := report₀ } := by
      simp [leavePrevObj, hgc]
    simp only [hcnt, hleav, Option.bind_eq_bind, Option.bind_some, Option.bind_eq_some_iff,
      Option.some.injEq] at h
    obtain ⟨walker₁, hprev, rfl⟩ := h
    unfold rebuildPrevObj at hprev
    by_cases hcond : walker.activefiles ≠ 0 ∧ walker.stval.ctime < walker.rebuildthresh
    · rw [if_pos (by simpa [hreb] using hcond)] at hprev
      obtain ⟨rbldops, report, rfl, hcnts⟩ := rebuildObj_count (hloc walker.objno) hprev
      refine ⟨?_, rfl, fun objno => ?_⟩
      · simp [enterObj, cursor, transitionActive, hobj]
      · change rebuildCount rbldops objno = _
        rw [hcnts]
        have hsame : ({ walker with report := report₀ } : Streamwalker).Targets location objno ↔
            walker.Targets location objno := Iff.rfl
        simp only [hsame, RebuildsLeft, hobj, hcond.1, hcond.2, Ftag.objno_atObj, ne_eq,
          not_false_eq_true, true_and]
    · rw [if_neg (by simpa [hreb] using hcond)] at hprev
      obtain rfl := Option.some.inj hprev
      refine ⟨?_, rfl, fun objno => ?_⟩
      · simp [enterObj, cursor, transitionActive, hobj]
      · rw [if_neg, Nat.add_zero]
        · rfl
        · rintro ⟨-, -, hact, hold, -⟩
          exact hcond ⟨hact, hold⟩
  · rename_i hobj
    obtain rfl := Option.some.inj h
    have hobj' : walker.ftag.objno = walker.objno := by simpa using hobj
    refine ⟨?_, rfl, fun objno => ?_⟩
    · simp [cursor, transitionActive, hobj']
    · rw [if_neg, Nat.add_zero]
      exact fun hleft => hobj hleft.2.1

theorem rebuildFile_count {endobj : Nat} {eos : Bool} (hreb : walker.rebuildthresh ≠ 0)
    (hloc : ∀ objno, objtarget (walker.ftag.atObj objno) = some (location objno))
    (hend : walker.ftag.objno ≤ endobj) (h : walker.rebuildFile objtarget endobj eos = some walker') :
    ∀ objno, rebuildCount walker'.rbldops objno = rebuildCount walker.rbldops objno +
      if walker.Targets location objno ∧ walker.RebuildsSpanned endobj eos objno
        then 1 else 0 := by
  intro objno
  unfold rebuildFile at h
  by_cases hcond : 1 < walker.stval.nlink ∧ walker.stval.ctime < walker.rebuildthresh
  · rw [if_pos (by simpa [RefStat.active, hreb] using hcond)] at h
    obtain ⟨rbldops, report, rfl, hcnt⟩ := rebuildSpan_count _ hloc h
    change rebuildCount rbldops objno = _
    rw [hcnt]
    have hrange : (walker.ftag.objno ≤ objno ∧ objno < walker.ftag.objno +
        ((if eos then endobj + 1 else endobj) - walker.ftag.objno)) ↔
        walker.RebuildsSpanned endobj eos objno := by
      simp only [RebuildsSpanned, hcond.1, hcond.2, true_and]
      cases eos
      · simp only [Bool.false_eq_true, if_false, false_and, or_false]
        omega
      · simp only [if_true, true_and]
        omega
    simp only [hrange]
  · rw [if_neg (by simpa [RefStat.active, hreb] using hcond)] at h
    obtain rfl := Option.some.inj h
    rw [if_neg, Nat.add_zero]
    exact fun hspan => hcond ⟨hspan.2.1, hspan.2.2.1⟩

/-- The current file is live under no GC threshold. -/
def Live (walker : Streamwalker) : Prop := 1 < walker.stval.nlink ∨ 0 ≤ walker.stval.ctime

instance (walker : Streamwalker) : Decidable walker.Live := by unfold Live; infer_instance

structure RebuildVisit (location : Nat → NeLocation) (walker walker' : Streamwalker)
    (rbldops : List Opinfo) : Prop where
  gcops_eq : walker'.gcops = []
  objno_eq : walker'.objno = datastreamFilebounds walker.ftag
  rebuildloc_eq : walker'.rebuildloc = walker.rebuildloc
  rebuildthresh_eq : walker'.rebuildthresh = walker.rebuildthresh
  activefiles_eq : walker'.activefiles = walker.passedActive + if walker.Live then 1 else 0
  count : ∀ objno, rebuildCount (rbldops ++ walker'.rbldops) objno =
    rebuildCount walker.rbldops objno +
      (if walker.Targets location objno ∧ walker.RebuildsLeft objno then 1 else 0) +
      if walker.Targets location objno ∧
        walker.RebuildsSpanned (datastreamFilebounds walker.ftag) walker.fileEos objno
        then 1 else 0

theorem collects_of_gcthresh (hgc : walker.gcthresh = 0) : walker.collects = false := by
  simp [collects, RefStat.expired, hgc]

theorem passObjects_count (walker : Streamwalker) (endobj objno : Nat) :
    rebuildCount ((walker.passObjects endobj).2 ++ (walker.passObjects endobj).1.rbldops) objno =
      rebuildCount walker.rbldops objno := by
  unfold passObjects
  split
  · simp
  · rfl

theorem visitFile_rebuild {prevdelzero : Bool} {tgtoffset : Nat} {gcops rbldops : List Opinfo}
    (hgc : walker.gcthresh = 0) (hreb : walker.rebuildthresh ≠ 0)
    (hloc : ∀ objno, objtarget (walker.ftag.atObj objno) = some (location objno)) (hnoops : walker.gcops = [])
    (h : walker.visitFile objtarget prevdelzero tgtoffset = some (walker', gcops, rbldops)) :
    gcops = [] ∧ RebuildVisit location walker walker' rbldops := by
  have hpull : walker.pullxattrs = true := by simp [pullxattrs, hreb]
  unfold visitFile at h
  dsimp only at h
  split at h
  · cases h
  rw [hpull] at h
  simp only [Option.bind_eq_bind, Option.bind_eq_some_iff, Option.some.injEq, Prod.mk.injEq,
    if_true, Bool.true_and, enterFile, hpull] at h
  obtain ⟨walker₁, h₁, walker₂, h₂, walker₃, h₃, rfl, hgcops, rfl⟩ := h
  obtain ⟨hcur₁, hgc₁, hcnt₁⟩ := objectTransition_count hgc hreb hloc h₁
  have hth₁ : walker₁.gcthresh = 0 := by
    simpa [cursor, hgc] using congrArg gcthresh hcur₁
  rw [collectWith, collects_of_gcthresh hth₁] at h₂
  obtain rfl := Option.some.inj h₂
  -- the counters do not matter for rebuilds
  have hnote : (walker₁.noteVolatile.noteFile true).cursor = walker₁.cursor ∧
      (walker₁.noteVolatile.noteFile true).gcops = walker₁.gcops ∧
      (walker₁.noteVolatile.noteFile true).rbldops = walker₁.rbldops := by
    unfold noteVolatile noteFile
    split
    · exact ⟨rfl, rfl, rfl⟩
    · exact ⟨rfl, rfl, rfl⟩
  obtain ⟨hcur₂, hgc₂, hops₂⟩ := hnote
  generalize walker₁.noteVolatile.noteFile true = walker₂ at *
  have hcur : walker₂.cursor = { walker.cursor with
      activefiles := walker.transitionActive, objno := walker.ftag.objno } := hcur₂.trans hcur₁
  have hftag : walker₂.ftag = walker.ftag := by simpa [cursor] using congrArg ftag hcur
  have hstval : walker₂.stval = walker.stval := by simpa [cursor] using congrArg stval hcur
  have hthr : walker₂.rebuildthresh = walker.rebuildthresh := by
    simpa [cursor] using congrArg rebuildthresh hcur
  have hrbloc : walker₂.rebuildloc = walker.rebuildloc := by
    simpa [cursor] using congrArg rebuildloc hcur
  obtain ⟨hcur₃, hgc₃⟩ := rebuildFile_spec h₃
  have hcnt₃ := rebuildFile_count (hthr ▸ hreb) (hftag ▸ hloc)
    (hftag ▸ objno_le_filebounds walker.ftag) h₃
  have hpass := passObjects_visit hcur₁ (hcur₃.trans hcur₂)
  have hpassgc := passObjects_gcops walker₃ (datastreamFilebounds walker.ftag)
  have hpasscount := passObjects_count walker₃ (datastreamFilebounds walker.ftag)
  generalize hw₄ : walker₃.passObjects (datastreamFilebounds walker.ftag) = passed at *
  obtain ⟨walker₄, rbldops⟩ := passed
  have hno₄ : walker₄.gcops = [] := by
    change walker₄.gcops = walker₃.gcops at hpassgc
    rw [hpassgc, hgc₃, hgc₂, hgc₁, hnoops]
  have hact : (walker₄.passActive (walker.fileno + tgtoffset)).2 = [] ∧
      (walker₄.passActive (walker.fileno + tgtoffset)).1.gcops = [] ∧
      (walker₄.passActive (walker.fileno + tgtoffset)).1.rbldops = walker₄.rbldops ∧
      (walker₄.passActive (walker.fileno + tgtoffset)).1.rebuildloc = walker₄.rebuildloc ∧
      (walker₄.passActive (walker.fileno + tgtoffset)).1.rebuildthresh = walker₄.rebuildthresh ∧
      (walker₄.passActive (walker.fileno + tgtoffset)).1.activefiles =
        walker₄.activefiles + if walker₄.Live then 1 else 0 := by
    have hth₄ : walker₄.gcthresh = 0 := by
      simpa [cursor, hgc] using congrArg gcthresh hpass
    unfold passActive
    by_cases hlive : walker₄.Live
    · rw [if_pos ((live_eq hth₄).mpr hlive), if_pos hlive]
      exact ⟨hno₄, rfl, rfl, rfl, rfl, rfl⟩
    · rw [if_neg fun h => hlive ((live_eq hth₄).mp h), if_neg hlive]
      exact ⟨rfl, hno₄, rfl, rfl, rfl, rfl⟩
  obtain ⟨hnil, hno₅, hops₅, hloc₅, hthresh₅, hfiles₅⟩ := hact
  have hfield {α : Type} (f : Streamwalker → α) := congrArg f hpass
  have hlive : walker₄.Live ↔ walker.Live := by
    have hst : walker₄.stval = walker.stval := hfield stval
    rw [Live, Live, hst]
  refine ⟨hgcops.symm.trans hnil, hno₅, rfl, ?_, ?_, ?_, fun objno => ?_⟩
  · exact hloc₅.trans (hfield rebuildloc)
  · exact hthresh₅.trans (hfield rebuildthresh)
  · change (walker₄.passActive (walker.fileno + tgtoffset)).1.activefiles = _
    have hfiles : walker₄.activefiles = walker.passedActive := hfield activefiles
    rw [hfiles₅, hfiles]
    exact congrArg (walker.passedActive + ·) (if_congr hlive rfl rfl)
  · change rebuildCount (rbldops ++
      (walker₄.passActive (walker.fileno + tgtoffset)).1.rbldops) objno = _
    have htgt : walker₂.Targets location objno ↔ walker.Targets location objno := by
      rw [Targets, Targets, hrbloc]
    have hspan : walker₂.RebuildsSpanned (datastreamFilebounds walker.ftag) walker.fileEos objno ↔
        walker.RebuildsSpanned (datastreamFilebounds walker.ftag) walker.fileEos objno := by
      simp only [RebuildsSpanned, hstval, hthr, hftag]
    rw [hops₅, hpasscount objno, hcnt₃, hops₂, hcnt₁, if_congr (and_congr htgt hspan) rfl rfl]

end Streamwalker

/-! ## What a walk covers -/

def Refs.Tagged (refs : Refs) (fileno : Nat) (file : RefFile) (ftag : Ftag) : Prop :=
  refs.file fileno = some file ∧ file.ftag = some ftag

def RefFile.OldActive (file : RefFile) (rebuildthresh : Int) : Prop :=
  1 < file.stat.nlink ∧ file.stat.ctime < rebuildthresh

def RefFile.Counted (file : RefFile) : Prop := 1 < file.stat.nlink ∨ 0 ≤ file.stat.ctime

def EndsAt (fileno : Nat) (file : RefFile) (ftag : Ftag) : Prop :=
  ftag.endofstream = true ∨ ftag.unfinalized = true ∨
    ((fileno = 0 ∨ gapLength file ≠ 0) ∧ (file.gctag.getD Gctag.none).eos = true)

/-- An old active file begins in the object or before it, and goes on behind it or ends the stream
in it. -/
def Spans (rebuildthresh : Int) (fileno : Nat) (file : RefFile) (ftag : Ftag) (objno : Nat) : Prop :=
  file.OldActive rebuildthresh ∧ ftag.objno ≤ objno ∧
    (objno < datastreamFilebounds ftag ∨
      (EndsAt fileno file ftag ∧ objno = datastreamFilebounds ftag))

def LeftBehind (refs : Refs) (rebuildthresh : Int) (fileno objno : Nat) : Prop :=
  ∃ file ftag, refs.Tagged fileno file ftag ∧ objno < ftag.objno ∧
    file.stat.ctime < rebuildthresh ∧
    ∀ i file' ftag', i < fileno → refs.Tagged i file' ftag' → datastreamFilebounds ftag' ≤ objno

def CountedEnds (refs : Refs) (fileno objno : Nat) : Prop :=
  ∃ i file ftag, i < fileno ∧ refs.Tagged i file ftag ∧ file.Counted ∧
    datastreamFilebounds ftag = objno

def CoversAt (refs : Refs) (rebuildthresh : Int) (fileno objno : Nat) : Prop :=
  (∃ file ftag, refs.Tagged fileno file ftag ∧ Spans rebuildthresh fileno file ftag objno) ∨
    (LeftBehind refs rebuildthresh fileno objno ∧ CountedEnds refs fileno objno)

section Layout

variable {rebuildthresh : Int} {i k objno : Nat}

variable {file file' : RefFile} {ftag ftag' : Ftag}

theorem Refs.Tagged.eq (h : refs.Tagged i file ftag) (h' : refs.Tagged i file' ftag') :
    file = file' ∧ ftag = ftag' := by
  obtain rfl : file = file' := Option.some.inj (h.1.symm.trans h'.1)
  exact ⟨rfl, Option.some.inj (h.2.symm.trans h'.2)⟩

variable (hs : LayoutConsistent refs)
include hs

theorem Refs.Tagged.order (h : refs.Tagged i file ftag) (h' : refs.Tagged k file' ftag') (hlt : i < k) :
    datastreamFilebounds ftag ≤ ftag'.objno :=
  hs.order h.1 h.2 h'.1 h'.2 hlt

theorem Refs.Tagged.bounds_le (h : refs.Tagged i file ftag) (h' : refs.Tagged k file' ftag') (hle : i ≤ k) :
    datastreamFilebounds ftag ≤ datastreamFilebounds ftag' := by
  rcases Nat.eq_or_lt_of_le hle with heq | hlt
  · subst heq
    rw [(h.eq h').2]
  · exact (h.order hs h' hlt).trans (objno_le_filebounds ftag')

theorem Refs.Tagged.not_endsAt (h : refs.Tagged i file ftag) (h' : refs.Tagged k file' ftag') (hlt : i < k) :
    ¬ EndsAt i file ftag := by
  intro hends
  have hstop : StreamEnds file ftag := hends.imp_right (Or.imp_right And.right)
  have hgone := hs.last h.1 h.2 hstop hlt
  rw [h'.1] at hgone
  cases hgone

theorem Spans.not_leftBehind (htag : refs.Tagged i file ftag)
    (hspan : Spans rebuildthresh i file ftag objno) : ¬ LeftBehind refs rebuildthresh k objno := by
  rintro ⟨file', ftag', htag', hbeh, -, hfst⟩
  obtain ⟨-, hbegin, hspan⟩ := hspan
  rcases Nat.lt_trichotomy i k with hlt | heq | hlt
  · have hle := hfst i file ftag hlt htag
    rcases hspan with hreach | ⟨hends, -⟩
    · omega
    · exact htag.not_endsAt hs htag' hlt hends
  · subst heq
    rw [(htag.eq htag').2] at hbegin
    omega
  · have hle := htag'.order hs htag hlt
    have := objno_le_filebounds ftag'
    omega

omit hs in
theorem CoversAt.tagged (h : CoversAt refs rebuildthresh i objno) : ∃ file ftag, refs.Tagged i file ftag := by
  rcases h with ⟨file, ftag, htag, -⟩ | ⟨⟨file, ftag, htag, -⟩, -⟩
  · exact ⟨file, ftag, htag⟩
  · exact ⟨file, ftag, htag⟩

theorem CoversAt.unique (h : CoversAt refs rebuildthresh i objno)
    (h' : CoversAt refs rebuildthresh k objno) (hlt : i < k) : False := by
  rcases h with ⟨file, ftag, htag, hspan⟩ | ⟨hleft, -⟩
  · rcases h' with ⟨file', ftag', htag', hspan'⟩ | ⟨hleft', -⟩
    · have hle := htag.order hs htag' hlt
      rcases hspan.2.2 with hreach | ⟨hends, -⟩
      · have := hspan'.2.1
        omega
      · exact htag.not_endsAt hs htag' hlt hends
    · exact hspan.not_leftBehind hs htag hleft'
  · rcases h' with ⟨file', ftag', htag', hspan'⟩ | ⟨hleft', -⟩
    · exact hspan'.not_leftBehind hs htag' hleft
    · obtain ⟨file, ftag, htag, hbeh, -⟩ := hleft
      obtain ⟨-, -, -, -, -, hfst⟩ := hleft'
      have hle := hfst i file ftag hlt htag
      have := objno_le_filebounds ftag
      omega

end Layout

/-! ## The walk -/

/-- What the files up to a number cover. -/
def CoveredTo (refs : Refs) (rebuildthresh : Int) (fileno objno : Nat) : Prop :=
  ∃ i, i ≤ fileno ∧ CoversAt refs rebuildthresh i objno

open Classical in
structure Rebuilding (refs : Refs) (rebuildthresh : Int) (rebuildloc : NeLocation)
    (location : Nat → NeLocation) (walker : Streamwalker) (done : List Opinfo) : Prop where
  walking : Walking refs walker
  gcthresh_eq : walker.gcthresh = 0
  rebuildthresh_eq : walker.rebuildthresh = rebuildthresh
  rebuildloc_eq : walker.rebuildloc = rebuildloc
  gcops_eq : walker.gcops = []
  objno_eq : walker.objno = datastreamFilebounds walker.ftag
  active : walker.activefiles ≠ 0 ↔ CountedEnds refs (walker.fileno + 1) walker.objno
  count : ∀ objno, rebuildCount (done ++ walker.rbldops) objno =
    if rebuildloc.matches (location objno) = true ∧
      CoveredTo refs rebuildthresh walker.fileno objno then 1 else 0

/-- Every object of the stream has one location: `datastream_objtarget` computes it from the object's
name, which the ctag, the stream ID and the object number make up. -/
def ObjLocations (objtarget : Ftag → Option NeLocation) (refs : Refs)
    (location : Nat → NeLocation) : Prop :=
  ∀ {fileno file ftag}, refs.Tagged fileno file ftag →
    ∀ objno, objtarget (ftag.atObj objno) = some (location objno)

section Run

variable {rebuildthresh : Int} {rebuildloc : NeLocation} {location : Nat → NeLocation}
  {walker walker' : Streamwalker} {done gcops rbldops : List Opinfo}

theorem Walking.tagged (h : Walking refs walker) :
    ∃ file, refs.Tagged walker.fileno file walker.ftag ∧
      walker.gctag = file.gctag.getD Gctag.none := by
  obtain ⟨file, hfile, htag, hgctag⟩ := h.at_file
  exact ⟨file, ⟨hfile, htag⟩, hgctag⟩

variable {file : RefFile} {ftag : Ftag}

theorem Walking.le_of_lt_next (hs : LayoutConsistent refs) (h : Walking refs walker) {i : Nat}
    (htag : refs.Tagged i file ftag) (hlt : i < walker.nextno) : i ≤ walker.fileno := by
  by_contra hbeyond
  obtain ⟨cur, hcur, -⟩ := h.tagged
  rw [h.nextno_eq hcur.1] at hlt
  have hgone := hs.gap hcur.1 i (by omega) (by omega)
  rw [htag.1] at hgone
  cases hgone

theorem Rebuilding.left_iff (hs : LayoutConsistent refs)
    (h : Rebuilding refs rebuildthresh rebuildloc location walker done)
    (htag : refs.Tagged walker.nextno file ftag) (objno : Nat) :
    (walker.loadFile file true).RebuildsLeft objno ↔
      LeftBehind refs rebuildthresh walker.nextno objno ∧
        CountedEnds refs walker.nextno objno := by
  obtain ⟨cur, hcur, -⟩ := h.walking.tagged
  have hbeh : walker.fileno < walker.nextno := by rw [Streamwalker.nextno]; omega
  have hload : (walker.loadFile file true).ftag = ftag := by
    simp [Streamwalker.loadFile, htag.2]
  have horder := hcur.order hs htag hbeh
  have hbound : ∀ {i file' ftag'}, i < walker.nextno → refs.Tagged i file' ftag' →
      datastreamFilebounds ftag' ≤ datastreamFilebounds walker.ftag := fun hlt htag' =>
    htag'.bounds_le hs hcur (h.walking.le_of_lt_next hs htag' hlt)
  have hends : CountedEnds refs (walker.fileno + 1) walker.objno ↔
      CountedEnds refs walker.nextno walker.objno := by
    constructor
    · rintro ⟨i, file', ftag', hlt, hrest⟩
      exact ⟨i, file', ftag', by omega, hrest⟩
    · rintro ⟨i, file', ftag', hlt, htag', hrest⟩
      have := h.walking.le_of_lt_next hs htag' hlt
      exact ⟨i, file', ftag', by omega, htag', hrest⟩
  have hleft : (walker.loadFile file true).RebuildsLeft objno ↔
      ftag.objno ≠ walker.objno ∧ walker.activefiles ≠ 0 ∧ file.stat.ctime < walker.rebuildthresh ∧
        objno = walker.objno := by
    rw [Streamwalker.RebuildsLeft, hload]
    rfl
  rw [hleft, h.active, hends, h.rebuildthresh_eq, h.objno_eq]
  constructor
  · rintro ⟨hne, hcnt, hold, rfl⟩
    exact ⟨⟨file, ftag, htag, by omega, hold, fun i file' ftag' hlt htag' => hbound hlt htag'⟩,
      hcnt⟩
  · rintro ⟨⟨file', ftag', htag', hobj, hold, hfst⟩, hcnt⟩
    obtain ⟨rfl, rfl⟩ := htag.eq htag'
    have hle := hfst _ _ _ hbeh hcur
    have hsame : objno = datastreamFilebounds walker.ftag := by
      obtain ⟨i, file'', ftag'', hlt, htag'', -, heq⟩ := hcnt
      have := hbound hlt htag''
      omega
    subst hsame
    exact ⟨by omega, hcnt, hold, rfl⟩

theorem Rebuilding.spanned_iff (h : Rebuilding refs rebuildthresh rebuildloc location walker done)
    (htag : refs.Tagged walker.nextno file ftag) (objno : Nat) :
    (walker.loadFile file true).RebuildsSpanned (datastreamFilebounds ftag)
        (walker.loadFile file true).fileEos objno ↔
      Spans rebuildthresh walker.nextno file ftag objno := by
  have hload : (walker.loadFile file true).ftag = ftag := by
    simp [Streamwalker.loadFile, htag.2]
  have hne : walker.nextno ≠ 0 := by rw [Streamwalker.nextno]; omega
  have heos : (walker.loadFile file true).fileEos = true ↔ EndsAt walker.nextno file ftag := by
    rw [Streamwalker.fileEos, hload]
    simp [EndsAt, hne, gapLength, Streamwalker.loadFile, or_assoc]
  have hspan : (walker.loadFile file true).RebuildsSpanned (datastreamFilebounds ftag)
      (walker.loadFile file true).fileEos objno ↔ 1 < file.stat.nlink ∧
        file.stat.ctime < walker.rebuildthresh ∧ ftag.objno ≤ objno ∧
        (objno < datastreamFilebounds ftag ∨
          ((walker.loadFile file true).fileEos = true ∧ objno = datastreamFilebounds ftag)) := by
    rw [Streamwalker.RebuildsSpanned, hload]
    rfl
  rw [hspan, heos, h.rebuildthresh_eq, Spans, RefFile.OldActive, and_assoc]

theorem Rebuilding.passed_iff (hs : LayoutConsistent refs)
    (h : Rebuilding refs rebuildthresh rebuildloc location walker done)
    (htag : refs.Tagged walker.nextno file ftag) :
    (walker.loadFile file true).passedActive ≠ 0 ↔
      CountedEnds refs walker.nextno (datastreamFilebounds ftag) := by
  obtain ⟨cur, hcur, -⟩ := h.walking.tagged
  have hbeh : walker.fileno < walker.nextno := by rw [Streamwalker.nextno]; omega
  have hload : (walker.loadFile file true).ftag = ftag := by
    simp [Streamwalker.loadFile, htag.2]
  have horder := hcur.order hs htag hbeh
  have hbegin := objno_le_filebounds ftag
  have hbound : ∀ {i file' ftag'}, i < walker.nextno → refs.Tagged i file' ftag' →
      i ≤ walker.fileno ∧ datastreamFilebounds ftag' ≤ datastreamFilebounds walker.ftag :=
    fun hlt htag' => ⟨h.walking.le_of_lt_next hs htag' hlt,
      htag'.bounds_le hs hcur (h.walking.le_of_lt_next hs htag' hlt)⟩
  have hpassed : (walker.loadFile file true).passedActive =
      if datastreamFilebounds ftag ≠ ftag.objno then 0
      else if ftag.objno ≠ walker.objno then 0 else walker.activefiles := by
    rw [Streamwalker.passedActive, Streamwalker.transitionActive, hload]
    rfl
  have hact := h.active
  rw [h.objno_eq] at hact
  rw [hpassed, h.objno_eq]
  constructor
  · intro hne
    split at hne
    · exact absurd rfl hne
    split at hne
    · exact absurd rfl hne
    · obtain ⟨i, file', ftag', hlt, hrest⟩ := hact.mp hne
      exact ⟨i, file', ftag', by omega, hrest.1, hrest.2.1, by omega⟩
  · rintro ⟨i, file', ftag', hlt, htag', hcnt, hends⟩
    obtain ⟨hle, hbnds⟩ := hbound hlt htag'
    rw [if_neg (by omega), if_neg (by omega)]
    exact hact.mpr ⟨i, file', ftag', by omega, htag', hcnt, by omega⟩

open Classical in
theorem Rebuilding.visit (hs : LayoutConsistent refs) (hloc : ObjLocations objtarget refs location)
    (hthr : rebuildthresh ≠ 0) (h : Rebuilding refs rebuildthresh rebuildloc location walker done)
    (hvisit : walker.FullVisit objtarget refs walker' gcops rbldops) :
    Rebuilding refs rebuildthresh rebuildloc location walker' (done ++ rbldops) := by
  have hwalking := h.walking.visit hs hvisit
  obtain ⟨file₀, ftag₀, hfile₀, htag₀, -, hcnts, -⟩ := hvisit.visited h.walking.pull
  obtain ⟨-, -, file, ftag, hfile, htagged, hstages⟩ := hvisit
  obtain rfl : file₀ = file := Option.some.inj (hfile₀.symm.trans hfile)
  have htag : refs.Tagged walker.nextno file₀ ftag := ⟨hfile, htagged⟩
  have hload : (walker.loadFile file₀ true).ftag = ftag := by
    simp [Streamwalker.loadFile, htagged]
  obtain ⟨-, hreb⟩ : gcops = [] ∧
      Streamwalker.RebuildVisit location (walker.loadFile file₀ true) walker' rbldops :=
    Streamwalker.visitFile_rebuild h.gcthresh_eq (h.rebuildthresh_eq ▸ hthr)
      (hload ▸ hloc htag) h.gcops_eq hstages
  obtain ⟨cur, hcur, -⟩ := h.walking.tagged
  have hbeh : walker.fileno < walker.nextno := by rw [Streamwalker.nextno]; omega
  have hfno : walker'.fileno = walker.nextno := hcnts.fileno_eq
  have hftag : walker'.ftag = ftag := hcnts.ftag_eq.trans hload
  have hobj : walker'.objno = datastreamFilebounds ftag := by rw [hreb.objno_eq, hload]
  refine ⟨hwalking, hcnts.gcthresh_eq.trans h.gcthresh_eq,
    hreb.rebuildthresh_eq.trans h.rebuildthresh_eq,
    hreb.rebuildloc_eq.trans h.rebuildloc_eq, hreb.gcops_eq, ?_, ?_, fun objno => ?_⟩
  · rw [hobj, hftag]
  · have hcnt : walker'.activefiles = (walker.loadFile file₀ true).passedActive +
        if (walker.loadFile file₀ true).Live then 1 else 0 := hreb.activefiles_eq
    have hlive : (walker.loadFile file₀ true).Live ↔ file₀.Counted := Iff.rfl
    have hpassed := h.passed_iff hs htag
    rw [hcnt, hobj, hfno]
    constructor
    · intro hne
      by_cases hcount : file₀.Counted
      · exact ⟨walker.nextno, file₀, ftag, by omega, htag, hcount, rfl⟩
      · rw [if_neg fun hyes => hcount (hlive.mp hyes)] at hne
        obtain ⟨i, file', ftag', hlt, hrest⟩ := hpassed.mp hne
        exact ⟨i, file', ftag', by omega, hrest⟩
    · rintro ⟨i, file', ftag', hlt, htag', hcount, hends⟩
      rcases Nat.lt_succ_iff_lt_or_eq.mp hlt with hlt | heq
      · have := hpassed.mpr ⟨i, file', ftag', hlt, htag', hcount, hends⟩
        omega
      · subst heq
        rw [(htag'.eq htag).1] at hcount
        rw [if_pos (hlive.mpr hcount)]
        omega
  · have htgt : (walker.loadFile file₀ true).Targets location objno ↔
        rebuildloc.matches (location objno) = true := by
      rw [← h.rebuildloc_eq]
      rfl
    have hcoversAt : CoversAt refs rebuildthresh walker.nextno objno ↔
        Spans rebuildthresh walker.nextno file₀ ftag objno ∨
          (LeftBehind refs rebuildthresh walker.nextno objno ∧
            CountedEnds refs walker.nextno objno) := by
      refine or_congr_left ⟨?_, fun hspan => ⟨file₀, ftag, htag, hspan⟩⟩
      rintro ⟨file', ftag', htag', hspan⟩
      obtain ⟨rfl, rfl⟩ := htag.eq htag'
      exact hspan
    have hcov : CoveredTo refs rebuildthresh walker.nextno objno ↔
        CoveredTo refs rebuildthresh walker.fileno objno ∨
          CoversAt refs rebuildthresh walker.nextno objno := by
      constructor
      · rintro ⟨i, hle, hcovers⟩
        rcases Nat.lt_or_eq_of_le hle with hlt | heq
        · obtain ⟨file', ftag', htag'⟩ := hcovers.tagged
          exact .inl ⟨i, h.walking.le_of_lt_next hs htag' hlt, hcovers⟩
        · exact .inr (heq ▸ hcovers)
      · rintro (⟨i, hle, hcovers⟩ | hcovers)
        · exact ⟨i, by omega, hcovers⟩
        · exact ⟨walker.nextno, le_refl _, hcovers⟩
    have hold := h.count objno
    have hnew := hreb.count objno
    rw [hload, if_congr (and_congr htgt (h.left_iff hs htag objno)) rfl rfl,
      if_congr (and_congr htgt (h.spanned_iff htag objno)) rfl rfl] at hnew
    change _ = rebuildCount walker.rbldops objno + _ + _ at hnew
    rw [rebuildCount_append] at hold hnew
    rw [List.append_assoc, rebuildCount_append, rebuildCount_append, hfno,
      if_congr (and_congr_right fun _ => hcov) rfl rfl]
    by_cases hmatch : rebuildloc.matches (location objno) = true
    · simp only [hmatch, true_and, hcoversAt] at hold hnew ⊢
      by_cases hbef : CoveredTo refs rebuildthresh walker.fileno objno
      · -- the object was covered at an earlier visit, and is not covered again
        have hnot : ¬ CoversAt refs rebuildthresh walker.nextno objno := by
          obtain ⟨i, hle, hcovers⟩ := hbef
          exact fun hagain => hcovers.unique hs hagain (by omega)
        rw [hcoversAt, not_or] at hnot
        rw [if_pos hbef] at hold
        rw [if_neg hnot.2, if_neg hnot.1] at hnew
        rw [if_pos (.inl hbef)]
        omega
      · rw [if_neg hbef] at hold
        by_cases hspan : Spans rebuildthresh walker.nextno file₀ ftag objno
        · have hnot := hspan.not_leftBehind hs (k := walker.nextno) htag
          rw [if_neg fun hleft => hnot hleft.1, if_pos hspan] at hnew
          rw [if_pos (.inr (.inl hspan))]
          omega
        · rw [if_neg hspan] at hnew
          by_cases hleft : LeftBehind refs rebuildthresh walker.nextno objno ∧
              CountedEnds refs walker.nextno objno
          · rw [if_pos hleft] at hnew
            rw [if_pos (.inr (.inr hleft))]
            omega
          · rw [if_neg hleft] at hnew
            rw [if_neg fun h => h.elim hbef fun h => h.elim hspan hleft]
            omega
    · simp only [hmatch, false_and, if_false, Bool.false_eq_true] at hold hnew ⊢
      omega

end Run

end Marfs.Rman
