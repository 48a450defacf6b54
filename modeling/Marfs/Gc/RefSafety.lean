import Mathlib.Tactic.IntervalCases
import Marfs.Rman.WalkRun

/-!
# Reference deletions and live files

A GC walk must not name a live file in a reference deletion.  The invariant that carries this
(`RefInv`) relates the pending op to the walker's position: the op ends at the first reference the
walker has not passed, and none of the references it starts from is live.  Every turn keeps it,
except in two situations, in which the walker starts an op *at* its current file although that file
is live (`AtRisk`): when the file carries an in-progress GCTAG, and when the next reference is an
eligible file without an FTAG.
-/

namespace Marfs.Gc

open Rman Tagging Rman.Streamwalker

variable {objtarget : Ftag → Option NeLocation} {refs : Refs}

/-- What a datastream and earlier GC runs leave in the tags: an FTAG bears the number of its file, a
GCTAG only lists references that are deleted or eligible for deletion, and it is never attached to
a file without an FTAG. -/
structure StreamTags (refs : Refs) (gcthresh : Int) : Prop where
  fileno_eq : ∀ {fileno file ftag}, refs.file fileno = some file → file.ftag = some ftag →
    ftag.fileno = fileno
  gap : ∀ {fileno file}, refs.file fileno = some file →
    ∀ j, fileno < j → j ≤ fileno + (file.gctag.getD Gctag.none).refcnt → ¬ refs.Live gcthresh j
  untagged : ∀ {fileno file}, refs.file fileno = some file → file.ftag = none →
    (file.gctag.getD Gctag.none).refcnt = 0

def SparesLive (refs : Refs) (gcthresh : Int) (chain : List Opinfo) : Prop :=
  ∀ op ∈ chain, ∀ fileno, op.CoversRef fileno → ¬ refs.Live gcthresh fileno

/-- The walker is at a live file, and its next turn starts a reference deletion there: the file
carries an in-progress GCTAG, or the next reference is eligible but has no FTAG. -/
def AtRisk (refs : Refs) (walker : Streamwalker) : Prop :=
  refs.Live walker.gcthresh walker.fileno ∧
    ((walker.gctag.refcnt ≠ 0 ∧ walker.gctag.inprog = true) ∨
      ∃ file, refs.file (walker.fileno + (1 + walker.gctag.refcnt)) = some file ∧
        file.ftag = none ∧ file.stat.eligible walker.gcthresh = true)

/-- The pending reference deletion ends at `limit` or before, and names no live file up to the
walker's position. -/
def PendingDead (refs : Refs) (gcthresh : Int) (position limit : Nat) (pending : Option Opinfo) :
    Prop :=
  ∀ op, pending = some op → op.count ≠ 0 →
    op.ftag.fileno + op.count ≤ limit ∧
      ∀ j, op.ftag.fileno ≤ j → j ≤ position → ¬ refs.Live gcthresh j

/-- The invariant of a walk, at the head of the loop. -/
structure RefInv (refs : Refs) (gcthresh : Int) (walker : Streamwalker) : Prop where
  gcthresh_eq : walker.gcthresh = gcthresh
  fileno_eq : walker.ftag.fileno = walker.fileno
  one : OneDelref walker.gcops
  gap : ∀ j, walker.fileno < j → j ≤ walker.fileno + walker.gctag.refcnt → ¬ refs.Live gcthresh j
  dead : PendingDead refs gcthresh walker.fileno (walker.fileno + (1 + walker.gctag.refcnt))
    walker.pending

section Pending

variable {gcthresh : Int} {position limit : Nat}

theorem PendingDead.none : PendingDead refs gcthresh position limit none := by
  intro op h; cases h

theorem PendingDead.noteDelzero {op : Opinfo} (h : PendingDead refs gcthresh position limit (some op)) :
    PendingDead refs gcthresh position limit (some (noteDelzero op)) := by
  intro op' hop' hcnt
  obtain rfl := Option.some.inj hop'
  exact h op rfl hcnt

variable {pending : Option Opinfo}

theorem PendingDead.noteEos (h : PendingDead refs gcthresh position limit pending) :
    PendingDead refs gcthresh position limit (pending.map noteEos) := by
  intro op' hop' hcnt
  obtain ⟨op, hop, rfl⟩ := Option.map_eq_some_iff.1 hop'
  exact h op hop hcnt

/-- A fresh op names nothing. -/
theorem PendingDead.getD (h : PendingDead refs gcthresh position limit pending) (ftag : Ftag) :
    PendingDead refs gcthresh position limit (some (pending.getD (newOperation .deleteRef ftag))) := by
  intro op hop hcnt
  obtain rfl := Option.some.inj hop
  cases pending with
  | none => exact absurd rfl hcnt
  | some op => exact h op rfl hcnt

theorem PendingDead.transition (walker : Streamwalker) {prevdelzero : Bool}
    (h : PendingDead refs gcthresh position limit walker.pending) :
    PendingDead refs gcthresh position limit (walker.transitionPending prevdelzero) := by
  unfold transitionPending
  split
  · exact (h.getD _).noteDelzero
  · exact h

theorem PendingDead.spares {chain : List Opinfo}
    (h : PendingDead refs gcthresh position limit (delrefOp chain)) (hone : OneDelref chain)
    (hgap : ∀ j, position < j → j < limit → ¬ refs.Live gcthresh j) : SparesLive refs gcthresh chain := by
  rintro op hop fileno ⟨hty, hlo, hhi⟩
  have hmem : op ∈ (delrefOp chain).toList := by
    rw [← hone.delrefs_eq]
    exact List.mem_filter.2 ⟨hop, by simp [hty]⟩
  obtain ⟨hlimit, hdead⟩ := h op (by simpa using hmem) (by omega)
  rcases Nat.lt_or_ge position fileno with hlt | hge
  · exact hgap fileno hlt (by omega)
  · exact hdead fileno hlo hge

end Pending

/-! ## One turn -/

section Turn

variable {gcthresh : Int} {walker walker' : Streamwalker}

theorem RefInv.spares (h : RefInv refs gcthresh walker) : SparesLive refs gcthresh walker.gcops :=
  h.dead.spares h.one fun j hlo hhi => h.gap j hlo (by omega)

theorem RefInv.dispatch (h : RefInv refs gcthresh walker) :
    RefInv refs gcthresh { walker with gcops := [], rbldops := [] } :=
  ⟨h.gcthresh_eq, h.fileno_eq, by simp, h.gap, PendingDead.none⟩

/-- Recovery appends the listed references to an op that reaches the walker, or starts an op at the
current file, which then must not be live. -/
theorem RefInv.recover (h : RefInv refs gcthresh walker) (hrisk : ¬ AtRisk refs walker)
    (hrec : walker.recoverInprog = some walker') : RefInv refs gcthresh walker' := by
  rcases recoverInprog_some hrec with ⟨-, rfl⟩ | ⟨hcond, op, hop, hcur, heff⟩
  · exact h
  obtain ⟨hth, hno, hft, hcnt⟩ := recoverInprog_gctag hrec
  refine ⟨hth.trans h.gcthresh_eq, by rw [hft, hno, h.fileno_eq], heff.one h.one,
    by rw [hno, hcnt]; exact h.gap, ?_⟩
  have hdead : ¬ refs.Live gcthresh walker.fileno := fun hlive =>
    hrisk ⟨h.gcthresh_eq.symm ▸ hlive, .inl ⟨hcond.1, hcond.2.1⟩⟩
  rw [hno, hcnt, show walker'.pending = some op from heff.pending_eq]
  intro op' hop' hcount
  obtain rfl := Option.some.inj hop'
  have hbase := h.dead.getD (walker.ftag.atFile (walker.ftag.fileno + 1)) _ rfl
  generalize walker.pending.getD _ = base at hop hbase
  obtain ⟨-, ⟨hne, hreach, hlo, hcnt', -⟩ | ⟨-, hlo, hcnt', -⟩⟩ := addInprog_some hop
  · obtain ⟨-, hlive⟩ := hbase hne
    exact ⟨by omega, fun j hj => hlive j (hlo ▸ hj)⟩
  · refine ⟨by rw [hlo, hcnt', h.fileno_eq]; omega, fun j hj hj' => ?_⟩
    obtain rfl : j = walker.fileno := by rw [hlo, h.fileno_eq] at hj; omega
    exact hdead

variable {position limit : Nat} {op : Opinfo}

theorem PendingDead.addReference {eos : Bool} {base : Opinfo}
    (h : PendingDead refs gcthresh position limit (some base)) (hop : walker.addReference eos base = some op)
    (hlimit : limit = walker.ftag.fileno)
    (hgap : ∀ j, position < j → j < walker.ftag.fileno → ¬ refs.Live gcthresh j)
    (hfile : ¬ refs.Live gcthresh walker.ftag.fileno) :
    PendingDead refs gcthresh walker.ftag.fileno
      (walker.ftag.fileno + (1 + walker.gctag.refcnt)) (some op) := by
  intro op' hop' hcount
  obtain rfl := Option.some.inj hop'
  obtain ⟨-, ⟨hne, -, hlo, hcnt, -⟩ | ⟨-, hlo, hcnt, -⟩⟩ := addReference_some hop
  · obtain ⟨hend, hlive⟩ := h base rfl hne
    refine ⟨by omega, fun j hj hj' => ?_⟩
    rcases Nat.lt_or_ge position j with hlt | hge
    · rcases Nat.lt_or_ge j walker.ftag.fileno with hin | hat
      · exact hgap j hlt hin
      · exact Nat.le_antisymm hj' hat ▸ hfile
    · exact hlive j (hlo ▸ hj) hge
  · refine ⟨by omega, fun j hj hj' => ?_⟩
    obtain rfl : j = walker.ftag.fileno := by omega
    exact hfile

theorem PendingDead.eligiblePending {endobj : Nat} (h : PendingDead refs gcthresh position limit (some op)) :
    PendingDead refs gcthresh position limit (some (walker.eligiblePending endobj op)) := by
  unfold Streamwalker.eligiblePending
  split
  · exact h.noteDelzero
  · exact h

theorem RefInv.visit {gcops rbldops : List Opinfo} (hgc : gcthresh ≠ 0)
    (htags : StreamTags refs gcthresh) (h : RefInv refs gcthresh walker)
    (hrisk : ¬ AtRisk refs walker) (hstep : VisitStep objtarget refs walker walker' gcops rbldops) :
    RefInv refs gcthresh walker' ∧ SparesLive refs gcthresh gcops := by
  obtain ⟨-, walker₁, file, ftag, hrec, -, hfile, htag, hvisit⟩ := hstep
  have h₁ := h.recover hrisk hrec
  have hno : ftag.fileno = walker₁.fileno + (1 + walker₁.gctag.refcnt) :=
    htags.fileno_eq hfile htag
  -- the walker at the next file, before the visit
  have hload : (walker₁.loadFile file true).ftag = ftag := by simp [loadFile, htag]
  have hloadg : (walker₁.loadFile file true).gctag = file.gctag.getD Gctag.none := rfl
  have hstat : (walker₁.loadFile file true).stval = file.stat := rfl
  have hth : (walker₁.loadFile file true).gcthresh = gcthresh := h₁.gcthresh_eq
  have hgap : ∀ j, walker₁.fileno < j → j < ftag.fileno → ¬ refs.Live gcthresh j :=
    fun j hlo hhi => h₁.gap j hlo (by omega)
  have hgap' : ∀ j, ftag.fileno < j →
      j ≤ ftag.fileno + (file.gctag.getD Gctag.none).refcnt → ¬ refs.Live gcthresh j :=
    htags.gap (hno ▸ hfile)
  have hdead : PendingDead refs gcthresh walker₁.fileno ftag.fileno
      ((walker₁.loadFile file true).transitionPending walker₁.gctag.delzero) := by
    rw [hno]
    exact PendingDead.transition (walker₁.loadFile file true) h₁.dead
  cases helig : file.stat.eligible gcthresh with
  | false =>
    obtain ⟨-, hv, hops, -, -, heff⟩ := visitFile_live (by rwa [hth]) (by rwa [hstat, hth]) hvisit
    refine ⟨⟨hv.gcthresh_eq.trans hth, by rw [hv.ftag_eq, hv.fileno_eq], by rw [hops]; simp,
      ?_, ?_⟩, ?_⟩
    · rw [hv.fileno_eq, hv.gctag_eq, hload, hloadg]
      exact hgap'
    · rw [Streamwalker.pending, hops]
      exact PendingDead.none
    · rw [← heff.pending_eq] at hdead
      exact hdead.spares (heff.one h₁.one) hgap
  | true =>
    obtain ⟨-, hv, hnone, -, -, walker₂, op, hcur₂, hop, heff⟩ :=
      visitFile_eligible (by rwa [hth]) (by rwa [hstat, hth]) hvisit
    have hft₂ : walker₂.ftag = ftag := by
      rw [← hload]; simpa [cursor] using congrArg Streamwalker.ftag hcur₂
    have hgc₂ : walker₂.gctag = file.gctag.getD Gctag.none := by
      rw [← hloadg]; simpa [cursor] using congrArg Streamwalker.gctag hcur₂
    have hnotlive : ¬ refs.Live gcthresh ftag.fileno := by
      rw [hno, Refs.live_iff hgc hfile, helig]; exact Bool.noConfusion
    have hadd := (hdead.getD _).addReference hop (by rw [hft₂]) (by rwa [hft₂]) (by rwa [hft₂])
    rw [hft₂, hgc₂] at hadd
    refine ⟨⟨hv.gcthresh_eq.trans hth, by rw [hv.ftag_eq, hv.fileno_eq], heff.one h₁.one,
      ?_, ?_⟩, ?_⟩
    · rw [hv.fileno_eq, hv.gctag_eq, hload, hloadg]
      exact hgap'
    · rw [show walker'.pending = _ from heff.pending_eq, hv.fileno_eq, hv.gctag_eq, hload, hloadg]
      exact hadd.eligiblePending
    · subst hnone
      simp [SparesLive]

theorem RefInv.leave (hgc : gcthresh ≠ 0) (htags : StreamTags refs gcthresh) (h : RefInv refs gcthresh walker)
    (hrisk : ¬ AtRisk refs walker) (hstep : LeaveStep refs walker walker') :
    RefInv refs gcthresh { walker' with gcops := [], rbldops := [] } ∧
      SparesLive refs gcthresh walker'.gcops := by
  cases hstep with
  | ended _ heq =>
    subst heq
    exact ⟨h.dispatch, h.spares⟩
  | gctagEos _ hrec _ =>
    have h' := h.recover hrisk hrec
    exact ⟨h'.dispatch, h'.spares⟩
  | missing _ walker₁ hrec _ hcur heff =>
    have h₁ := h.recover hrisk hrec
    have hno : walker'.fileno = walker₁.fileno := by
      simpa [cursor] using congrArg Streamwalker.fileno hcur
    have hgct : walker'.gctag = walker₁.gctag := by
      simpa [cursor] using congrArg Streamwalker.gctag hcur
    have hft : walker'.ftag.fileno = walker₁.ftag.fileno := by
      have : walker'.ftag = { walker₁.ftag with endofstream := true } := by
        simpa [cursor] using congrArg Streamwalker.ftag hcur
      rw [this]
    have hth : walker'.gcthresh = walker₁.gcthresh := by
      simpa [cursor] using congrArg Streamwalker.gcthresh hcur
    have h' : RefInv refs gcthresh walker' := by
      refine ⟨hth.trans h₁.gcthresh_eq, by rw [hft, hno, h₁.fileno_eq], heff.one h₁.one, ?_, ?_⟩
      · rw [hno, hgct]; exact h₁.gap
      · rw [show walker'.pending = _ from heff.pending_eq, hno, hgct]
        exact h₁.dead.noteEos
    exact ⟨h'.dispatch, h'.spares⟩
  | untagged _ walker₁ walker₂ file hrec hfile huntag hcur hops htrl =>
    have h₁ := h.recover hrisk hrec
    obtain ⟨hcur', hcase⟩ := trailingFile_some htrl
    have hcur₂ := hcur'.trans hcur
    have hcnt : (file.gctag.getD Gctag.none).refcnt = 0 := htags.untagged hfile huntag
    have hload : (walker₁.loadFile file true).ftag = walker₁.ftag := by
      simp [loadFile, huntag]
    have hgct : walker'.gctag = file.gctag.getD Gctag.none := cursor_gctag hcur₂
    have hno : walker'.fileno = (walker₁.loadFile file true).fileno := cursor_fileno hcur₂
    change walker'.fileno = walker₁.fileno at hno
    have hinv : RefInv refs gcthresh { walker' with gcops := [], rbldops := [] } := by
      refine ⟨(cursor_gcthresh hcur₂).trans h₁.gcthresh_eq, ?_, by simp, ?_, PendingDead.none⟩
      · change walker'.ftag.fileno = walker'.fileno
        rw [cursor_ftag hcur₂, hload, hno, h₁.fileno_eq]
      · change ∀ j, walker'.fileno < j → j ≤ walker'.fileno + walker'.gctag.refcnt → _
        rw [hgct, hcnt]
        intro j hlo hhi
        omega
    refine ⟨hinv, ?_⟩
    have hp₂ : walker₂.pending = walker₁.pending := congrArg delrefOp hops
    have hgap : ∀ j, walker₁.fileno < j → j < walker₁.fileno + (1 + walker₁.gctag.refcnt) →
        ¬ refs.Live gcthresh j := fun j hlo hhi => h₁.gap j hlo (by omega)
    rcases hcase with ⟨-, hsame⟩ | ⟨hcoll, op, hop, heff⟩
    · rw [hsame, hops]
      exact h₁.spares
    · have hth₂ : walker₂.gcthresh = gcthresh := (cursor_gcthresh hcur).trans h₁.gcthresh_eq
      have helig : file.stat.eligible gcthresh = true := by
        rw [collects_eq, hth₂, cursor_stval hcur] at hcoll
        exact hcoll
      have hnotlive : ¬ refs.Live gcthresh (walker₁.fileno + (1 + walker₁.gctag.refcnt)) := by
        rw [Refs.live_iff hgc hfile, helig]; exact Bool.noConfusion
      -- a new op starts at the walker's own file, which is not at risk
      have hhere : ¬ refs.Live gcthresh walker₁.fileno := by
        obtain ⟨-, hno₁, -, hcnt₁⟩ := recoverInprog_gctag hrec
        rw [hno₁]
        rw [hno₁, hcnt₁] at hfile
        exact fun hlive => hrisk ⟨h.gcthresh_eq.symm ▸ hlive,
          .inr ⟨file, hfile, huntag, h.gcthresh_eq.symm ▸ helig⟩⟩
      have hcnt₂ : walker₂.gctag.refcnt = 0 := by rw [cursor_gctag hcur]; exact hcnt
      have hft₂ : walker₂.ftag.fileno = walker₁.fileno := by
        rw [cursor_ftag hcur, hload, h₁.fileno_eq]
      rw [hp₂] at hop
      have hbase := h₁.dead.getD
        (walker₁.ftag.atFile (walker₁.fileno + (1 + walker₁.gctag.refcnt))) _ rfl
      have hdead : PendingDead refs gcthresh walker₁.fileno
          (walker₁.fileno + (1 + walker₁.gctag.refcnt) + 1) (delrefOp walker'.gcops) := by
        rw [heff.pending_eq]
        intro op' hop' _
        obtain rfl := Option.some.inj hop'
        obtain ⟨-, ⟨hne, -, hlo, hc, -⟩ | ⟨-, hlo, hc, -⟩⟩ := addReference_some hop
        · obtain ⟨hend, hlive⟩ := hbase hne
          exact ⟨by omega, fun j hj => hlive j (hlo ▸ hj)⟩
        · refine ⟨by omega, fun j hj hj' => ?_⟩
          obtain rfl : j = walker₁.fileno := by omega
          exact hhere
      refine hdead.spares (heff.one (hops ▸ h₁.one)) fun j hlo hhi => ?_
      rcases Nat.lt_or_ge j (walker₁.fileno + (1 + walker₁.gctag.refcnt)) with hin | hat
      · exact hgap j hlo hin
      · exact Nat.le_antisymm (Nat.le_of_lt_succ hhi) hat ▸ hnotlive

end Turn

/-! ## Whole walks -/

variable {thresh : Thresholds} {rebuildloc : Option NeLocation} {walker : Streamwalker}

/-- A walker opens with the invariant: the op of an eligible file zero names file zero itself, or
the gap behind it. -/
theorem RefInv.opened (hgc : thresh.gcthreshold ≠ 0) (htags : StreamTags refs thresh.gcthreshold)
    (h : processOpenstreamwalker objtarget refs thresh rebuildloc = .opened walker) :
    RefInv refs thresh.gcthreshold walker := by
  obtain ⟨file, ftag, hfile, htag, hopen, hat, hno, hft, hgct, -⟩ := opened_some hgc h
  set initial := Streamwalker.initial thresh rebuildloc file ftag with hinit
  obtain ⟨-, hops⟩ := openFile_some initial hgc hopen
  have hnil : initial.gcops = [] := rfl
  have hnone : initial.pending = none := rfl
  have hftno : initial.ftag.fileno = 0 := htags.fileno_eq hfile htag
  have hgctag : initial.gctag = file.gctag.getD Gctag.none := rfl
  refine ⟨hat.gcthresh_eq, by rw [hft, hno]; exact hftno, ?_,
    by rw [hno, hgct]; exact htags.gap hfile, ?_⟩
  · rcases hops with ⟨-, hops⟩ | ⟨-, heff⟩
    · rw [hops, hnil]; exact oneDelref_nil
    · exact heff.one (by rw [hnil]; exact oneDelref_nil)
  · rcases hops with ⟨-, hops⟩ | ⟨hcoll, heff⟩
    · rw [show walker.pending = none from congrArg delrefOp hops]
      exact PendingDead.none
    · have hnotlive : ¬ refs.Live thresh.gcthreshold 0 := by
        rw [Refs.live_iff hgc hfile]
        rw [collects_eq] at hcoll
        exact fun hlive => by simp [hinit, Streamwalker.initial, hlive] at hcoll
      rw [show walker.pending = _ from heff.pending_eq, hno, hgct, ← hgctag]
      intro op hop hcnt
      obtain ⟨-, hlo, hc, -, -⟩ | ⟨-, -, ⟨-, hc, -⟩ | ⟨-, hc, hlo⟩, -⟩ :=
        openPending_some hnone hop
      · refine ⟨by omega, fun j hj hj' => ?_⟩
        obtain rfl : j = 0 := by omega
        exact hnotlive
      · exact absurd hc hcnt
      · exact ⟨by omega, fun j hj hj' => by omega⟩

/-- GC never names a live file: in every walk that is never at risk, whatever the tags earlier runs
left, no reference deletion that the opened walker and any number of its calls dispatch covers a
file that is linked or was deactivated too recently. -/
theorem walkStream_sparesLive (hgc : thresh.gcthreshold ≠ 0) (htags : StreamTags refs thresh.gcthreshold)
    (hrisk : ∀ walker₀ walker,
      processOpenstreamwalker objtarget refs thresh rebuildloc = .opened walker₀ →
      Reaches objtarget refs walker₀ walker → ¬ AtRisk refs walker) (n : Nat) :
    ∀ chain ∈ (walkStream objtarget refs thresh rebuildloc n).gcops,
      SparesLive refs thresh.gcthreshold chain :=
  walkStream_safe (RefInv refs thresh.gcthreshold) hgc
    (fun _ hopen =>
      { start := RefInv.opened hgc htags hopen
        visit := fun hreach _ h => h.visit hgc htags (hrisk _ _ hopen hreach)
        leave := fun hreach _ h => h.leave hgc htags (hrisk _ _ hopen hreach) }) n

theorem Reaches.not_atRisk {walker₀ : Streamwalker} (hgc : thresh.gcthreshold ≠ 0)
    (hcomp : ∀ fileno file, refs.file fileno = some file →
      file.ftag.isSome ∧ (file.gctag.getD Gctag.none).inprog = false)
    (hopen : processOpenstreamwalker objtarget refs thresh rebuildloc = .opened walker₀)
    (hreach : Reaches objtarget refs walker₀ walker) : ¬ AtRisk refs walker := by
  obtain ⟨file, ftag, hfile, -, -, hat, -, -, hgct, -⟩ := opened_some hgc hopen
  have hnorec : ∀ {walker walker₁ : Streamwalker}, walker.gctag.inprog = false →
      walker.recoverInprog = some walker₁ → walker₁ = walker := fun hw hrec => by
    rcases recoverInprog_some hrec with ⟨-, rfl⟩ | ⟨hcond, -⟩
    · rfl
    · simp [hw] at hcond
  have hinv : GcInvariant objtarget refs thresh.gcthreshold walker₀
      (fun walker => walker.gctag.inprog = false) (fun _ => True) := by
    refine ⟨by rw [hgct]; exact (hcomp 0 file hfile).2, fun _ hat hw hstep => ?_,
      fun _ hat hw hstep => ?_⟩
    · obtain ⟨-, -, -, file, hfile, -, hgct, -⟩ := hstep.visited (hat.gcthresh_eq ▸ hgc)
      exact ⟨by rw [hgct]; exact (hcomp _ file hfile).2, trivial⟩
    · refine ⟨?_, trivial⟩
      cases hstep with
      | ended _ heq => subst heq; exact hw
      | gctagEos _ hrec _ => rw [hnorec hw hrec]; exact hw
      | untagged _ walker₁ _ file _ hfile huntag =>
        have := (hcomp _ file hfile).1
        simp [huntag] at this
      | missing _ walker₁ hrec _ hcur _ =>
        have hgct := congrArg Streamwalker.gctag hcur
        rw [hnorec hw hrec] at hgct
        simpa [cursor] using (congrArg Gctag.inprog hgct).trans hw
  have hw := hinv.reached hgc hat hreach
  rintro ⟨-, ⟨-, hprog⟩ | ⟨file, hfile, huntag, -⟩⟩
  · rw [hw] at hprog; cases hprog
  · have := (hcomp _ file hfile).1
    simp [huntag] at this

/-! ## A stream at risk -/

def sampleFile (fileno objno : Nat) (linked endofstream : Bool) (gctag : Option Gctag) : RefFile :=
  { stat := { nlink := if linked then 2 else 1, ctime := 5, size := 10 }
    ftag := some (sampleFtag fileno objno endofstream)
    gctag := gctag }

/-- GC of everything inactive before time 10. -/
def sampleThresh : Thresholds :=
  { gcthreshold := 10, repackthreshold := 0, rebuildthreshold := 0, cleanupthreshold := 0 }

def interruptedStream : Refs :=
  [some (sampleFile 0 0 true false none),
   some (sampleFile 1 0 true false
    (some { refcnt := 1, eos := false, delzero := false, inprog := true })),
   some (sampleFile 2 0 false false none),
   some (sampleFile 3 0 true true none)]

theorem interruptedStream_tags : StreamTags interruptedStream 10 := by
  refine ⟨fun {fileno file ftag} hfile htag => ?_, fun {fileno file} hfile j hlo hhi => ?_,
    fun {fileno file} hfile htag => ?_⟩
  all_goals
    have hlt : fileno < 4 := Refs.file_lt hfile
    interval_cases fileno <;> obtain rfl := Option.some.inj hfile
  all_goals try cases htag
  all_goals try rfl
  all_goals simp [sampleFile, Gctag.none] at hhi
  all_goals try omega
  obtain rfl : j = 2 := by omega
  have hfile : interruptedStream.file 2 = some (sampleFile 2 0 false false none) := rfl
  rw [Refs.live_iff (by decide) hfile]
  decide

/-- The walker recovers the interrupted deletion of file 2 by an op on file 1, which is linked. -/
theorem walkStream_deletes_live :
    StreamTags interruptedStream sampleThresh.gcthreshold ∧
      ¬ ∀ chain ∈ (walkStream (fun _ => none) interruptedStream sampleThresh none 2).gcops,
        SparesLive interruptedStream sampleThresh.gcthreshold chain := by
  refine ⟨interruptedStream_tags, fun h => ?_⟩
  have hchain : [{ newOperation .deleteRef (sampleFtag 1 0 false) with
      extendedinfo := .delref { prevActiveIndex := 1, delzero := false, eos := false }
      count := 1 }] ∈
      (walkStream (fun _ => none) interruptedStream sampleThresh none 2).gcops := by decide
  exact h _ hchain _ (List.mem_singleton_self _) 1 (by decide)
    ⟨_, rfl, .inl (by decide)⟩

/-- A stream of four files, of which the two in the middle are eligible. -/
def completeStream : Refs :=
  [some (sampleFile 0 0 true false none), some (sampleFile 1 0 false false none),
   some (sampleFile 2 1 false false none), some (sampleFile 3 1 true true none)]

theorem completeStream_tags : StreamTags completeStream 10 := by
  refine ⟨fun {fileno file ftag} hfile htag => ?_, fun {fileno file} hfile j hlo hhi => ?_,
    fun {fileno file} hfile htag => ?_⟩
  all_goals
    have hlt : fileno < 4 := Refs.file_lt hfile
    interval_cases fileno <;> obtain rfl := Option.some.inj hfile
  all_goals try cases htag
  all_goals try rfl
  all_goals (simp [sampleFile, Gctag.none] at hhi; omega)

/-- On it the walk deletes files 1 and 2, and is never at risk. -/
theorem completeStream_sparesLive :
    (walkStream (fun _ => none) completeStream sampleThresh none 3).gcops.map
        (fun chain => (delrefs chain).map fun op => (op.ftag.fileno, op.count)) = [[(1, 2)]] ∧
      ∀ chain ∈ (walkStream (fun _ => none) completeStream sampleThresh none 3).gcops,
        SparesLive completeStream sampleThresh.gcthreshold chain := by
  refine ⟨by decide, walkStream_sparesLive (by decide) completeStream_tags
    (fun walker₀ walker hopen => Reaches.not_atRisk (by decide) ?_ hopen) 3⟩
  intro fileno file hfile
  have hlt : fileno < 4 := Refs.file_lt hfile
  interval_cases fileno <;> (obtain rfl := Option.some.inj hfile; decide)

end Marfs.Gc
