import Marfs.Gc.Bookkeeping
import Marfs.Gc.RefSafety

/-!
# A GC pass and the walks after it

A pass is a complete walk whose chains are all executed.  It removes the stream when nothing but an
eligible file zero is left of it, and otherwise leaves a stream of file zero and the live files
(`Collected`), whose gaps lead every later walk from one survivor to the next.
-/

namespace Marfs.Gc

open Rman Datastream Tagging Rman.Streamwalker

variable {objtarget : Ftag → Option NeLocation} {refs : Refs} {gcthresh : Int}

/-- A pass over `refs` left file zero and the live files. -/
structure Collected (refs : Refs) (gcthresh : Int) (done : Refs) : Prop
    extends Spares refs gcthresh done where
  stream : Stream done
  dead : ∀ {j file}, 0 < j → done.file j = some file → file.stat.eligible gcthresh = false

def PassResult (refs : Refs) (gcthresh : Int) (done : Refs) : Prop :=
  (SoleEligible refs gcthresh ∧ ∀ j, done.file j = none) ∨
    (¬ SoleEligible refs gcthresh ∧ Collected refs gcthresh done)

/-- The walker took everything to the end of the stream, and handed it out. -/
structure Finished (refs : Refs) (walker : Streamwalker) : Prop where
  eos : walker.fileEos = true
  complete : walker.gctag.inprog = false
  nil : walker.gcops = []
  file : ∃ file, refs.file walker.fileno = some file

section Ends

variable {walker walker' : Streamwalker}

/-- At the end of the stream the loop does not go on. -/
theorem not_visit_of_fileEos (heos : walker.fileEos = true) (hprog : walker.gctag.inprog = false)
    {gcops rbldops : List Opinfo} : ¬ VisitStep objtarget refs walker walker' gcops rbldops := by
  rintro ⟨hcont, walker₁, -, -, hrec, hnot, -⟩
  obtain rfl := recoverInprog_complete hprog hrec
  rw [fileEos_eq_false hcont hnot] at heos
  cases heos

/-- It is left as it is. -/
theorem leave_of_fileEos (heos : walker.fileEos = true) (hprog : walker.gctag.inprog = false)
    (hstep : LeaveStep refs walker walker') : walker' = walker := by
  cases hstep with
  | ended _ heq => exact heq
  | gctagEos _ hrec _ => exact recoverInprog_complete hprog hrec
  | untagged hcont _ _ _ hrec _ _ _ _ _ hnot =>
    obtain rfl := recoverInprog_complete hprog hrec
    rw [fileEos_eq_false hcont hnot] at heos
    cases heos
  | missing hcont _ hrec _ _ _ hnot _ =>
    obtain rfl := recoverInprog_complete hprog hrec
    rw [fileEos_eq_false hcont hnot] at heos
    cases heos

theorem Finished.cleared (h : Finished refs walker) : Finished refs walker.cleared :=
  ⟨h.eos, h.complete, rfl, h.file⟩

theorem WalkInv.complete (hs : Stream refs) (h : WalkInv refs gcthresh walker) :
    walker.gctag.inprog = false := by
  obtain ⟨file, hfile, -, hgct⟩ := h.file
  rw [hgct]
  exact hs.complete hfile

theorem Sole.complete (hs : Stream refs) (h : Sole refs gcthresh walker) : walker.gctag.inprog = false := by
  obtain ⟨file, hfile, -, hgct, -⟩ := h.file
  rw [hgct]
  exact hs.complete hfile

theorem Sole.soleEligible (h : Sole refs gcthresh walker) : SoleEligible refs gcthresh := by
  obtain ⟨file, hfile, htag, hgct, helig⟩ := h.file
  refine ⟨file, walker.ftag, hfile, htag, ?_, helig⟩
  have heos := h.eos
  simp only [fileEos, hgct, Bool.or_eq_true, Bool.and_eq_true] at heos
  rcases heos with (hend | hunfin) | ⟨-, hgceos⟩
  · exact .inl hend
  · exact .inr (.inl hunfin)
  · exact .inr (.inr hgceos)

end Ends

/-! ## One turn of a pass -/

/-- A walker of a pass, with the references as executed so far. -/
inductive PassInv (refs : Refs) (gcthresh : Int) (walker : Streamwalker) (done : Refs) : Prop
  | walking (h : WalkInv refs gcthresh walker) (hsole : ¬ SoleEligible refs gcthresh)
      (hd : DoneInv refs gcthresh walker.activeindex done)
  | sole (h : Sole refs gcthresh walker) (hd : done = refs)
  | finished (h : Finished refs walker) (hd : PassResult refs gcthresh done)

variable {walker walker' : Streamwalker} {done done' : Refs}

variable {gcops rbldops : List Opinfo} {thresh : Thresholds} {rebuildloc : Option NeLocation}

theorem WalkInv.visit_done (hgc : gcthresh ≠ 0) (hs : Stream refs) (h : WalkInv refs gcthresh walker)
    (hd : DoneInv refs gcthresh walker.activeindex done)
    (hstep : VisitStep objtarget refs walker walker' gcops rbldops)
    (hexec : executeChain done gcops = some done') :
    WalkInv refs gcthresh walker' ∧ DoneInv refs gcthresh walker'.activeindex done' := by
  obtain ⟨cur, hcur, -, hgap, -⟩ := h.located.fileEos_iff hs.toWalkable
  obtain ⟨h', hno, file, hfile, hcase⟩ := h.visit hgc hs.toWalkable (h.complete hs) hstep
  have hemp : ∀ j, walker.fileno < j → j < walker'.fileno → refs.file j = none :=
    fun j hlo hhi => hs.gap hcur j hlo (by omega)
  refine ⟨h', ?_⟩
  rcases hcase with ⟨hlive, hidx, -, hone, hpend⟩ | ⟨-, hidx, rfl⟩
  · rw [hidx]
    have hle := h.active_le
    refine hd.dispatch hone hpend hexec hfile hlive h.anchor (by omega) ?_ hemp
    intro j file' hlo hhi hj
    rcases Nat.lt_or_ge walker.fileno j with hnew | hold
    · rw [hemp j hnew hhi] at hj; cases hj
    · exact h.collected hlo hold hj
  · rw [hidx]
    obtain rfl := Option.some.inj hexec
    exact hd

theorem PassInv.visit (hgc : gcthresh ≠ 0) (hs : Stream refs) (h : PassInv refs gcthresh walker done)
    (hstep : VisitStep objtarget refs walker walker' gcops rbldops)
    (hexec : executeChain done gcops = some done') : PassInv refs gcthresh walker' done' := by
  cases h with
  | walking h hsole hd =>
    obtain ⟨h', hd'⟩ := h.visit_done hgc hs hd hstep hexec
    exact .walking h' hsole hd'
  | sole h _ => exact absurd hstep (not_visit_of_fileEos h.eos (h.complete hs))
  | finished h _ => exact absurd hstep (not_visit_of_fileEos h.eos h.complete)

theorem WalkInv.finish (hs : Stream refs) (h : WalkInv refs gcthresh walker)
    (hd : DoneInv refs gcthresh walker.activeindex done) (heos : walker.fileEos = true)
    (hexec : executeChain done walker.gcops = some done') : Collected refs gcthresh done' := by
  have hle := h.active_le
  have hbeh : ∀ j, walker.fileno < j → refs.file j = none := fun j hj =>
    h.located.behind_end hs.toWalkable heos hj
  have hpend := h.pend
  rw [heos] at hpend
  cases hop : walker.pending with
  | none =>
    obtain rfl : done = done' := by
      rw [executeChain_none h.one hop] at hexec
      exact Option.some.inj hexec
    have hat : walker.activeindex = walker.fileno := hpend.fresh fun op hop' => by
      rw [hop] at hop'; cases hop'
    refine ⟨hd.toSpares, hd.stream, fun {j file} hlo hj => ?_⟩
    rcases Nat.lt_or_ge walker.activeindex j with hnew | hold
    · rw [hd.ahead j (by omega), hbeh j (by omega)] at hj; cases hj
    · exact hd.kept hlo hold hj
  | some op =>
    obtain ⟨hstr, hc⟩ := hd.execute h.one hop (hpend.gapOp op hop) hexec h.anchor
      (fun hf => absurd hf Bool.noConfusion) (fun _ j hj => hbeh j (by omega))
    refine ⟨hd.toSpares.collapse hc fun {j file} hlo hhi hj => ?_, hstr,
      fun {j file} hlo hj => ?_⟩
    · rcases Nat.lt_or_ge walker.fileno j with hnew | hold
      · rw [hbeh j hnew] at hj; cases hj
      · exact h.collected hlo hold hj
    · obtain ⟨file₀, hfile₀, -, hst⟩ := hc.source hj
      rcases Nat.lt_or_ge walker.activeindex j with hnew | hold
      · rcases Nat.lt_or_ge walker.fileno j with hpast | hin
        · rw [hd.ahead j (by omega), hbeh j hpast] at hfile₀; cases hfile₀
        · rw [hc.gone j hnew (by omega)] at hj; cases hj
      · exact hst ▸ hd.kept hlo hold hfile₀

theorem Sole.finish (hs : Stream refs) (h : Sole refs gcthresh walker)
    (hexec : executeChain refs walker.gcops = some done') :
    SoleEligible refs gcthresh ∧ ∀ j, done'.file j = none := by
  refine ⟨h.soleEligible, fun j => ?_⟩
  obtain ⟨op, hop, hlo, hc, hprev⟩ := h.pend
  have hdel := executeChain_inv h.one hop hexec
  obtain ⟨file, ftag, hfile, htag, hends, -⟩ := h.soleEligible
  have hcov : op.CoversRef j ↔ j = 0 := by
    simp only [Opinfo.CoversRef, delrefOp_type hop, true_and]
    omega
  rw [hdel j]
  rcases Nat.eq_zero_or_pos j with hzero | hpos
  · rw [if_pos (hcov.2 hzero)]
  · rw [if_neg (by rw [hcov]; omega), hprev, if_neg (by omega)]
    exact hs.last hfile htag hends hpos

theorem PassInv.leave (hs : Stream refs) (h : PassInv refs gcthresh walker done)
    (hstep : LeaveStep refs walker walker') (hexec : executeChain done walker'.gcops = some done') :
    PassInv refs gcthresh walker'.cleared done' ∧ PassResult refs gcthresh done' := by
  have hfinish : ∀ {walker : Streamwalker}, walker.fileEos = true → walker.gctag.inprog = false →
      (∃ file, refs.file walker.fileno = some file) → PassResult refs gcthresh done' →
      PassInv refs gcthresh walker.cleared done' ∧ PassResult refs gcthresh done' :=
    fun heos hprog hfile hres => ⟨.finished ⟨heos, hprog, rfl, hfile⟩ hres, hres⟩
  cases h with
  | walking h hsole hd =>
    obtain ⟨rfl, heos⟩ := h.located.leave hs.toWalkable (h.complete hs) hstep
    obtain ⟨file, hfile, -⟩ := h.file
    exact hfinish heos (h.complete hs) ⟨file, hfile⟩ (.inr ⟨hsole, h.finish hs hd heos hexec⟩)
  | sole h hd =>
    obtain rfl := leave_of_fileEos h.eos (h.complete hs) hstep
    obtain ⟨file, hfile, -⟩ := h.file
    exact hfinish h.eos (h.complete hs) ⟨file, by rw [h.fileno_eq, hfile]⟩
      (.inl (h.finish hs (hd ▸ hexec)))
  | finished h hd =>
    obtain rfl := leave_of_fileEos h.eos h.complete hstep
    rw [h.nil] at hexec
    obtain rfl := Option.some.inj hexec
    exact hfinish h.eos h.complete h.file hd

/-- The walker reports a datastream break: the stream goes on, but its next reference is missing. -/
def Breaks (refs : Refs) (walker : Streamwalker) : Prop :=
  walker.fileEos = false ∧ refs.file (walker.fileno + (1 + walker.gctag.refcnt)) = none

end Marfs.Gc
