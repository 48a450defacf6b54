import Marfs.Gc.Pass

/-!
# Recovering from an interrupted pass

A pass that is interrupted while it executes a reference deletion leaves a GCTAG with `inprog` set,
and some of the references it lists.  The next GC walk adds these references to the pending op, or
starts an op for them.  Neither works in general: an op that is already pending behind the tag's
file ends behind the listed references rather than at the file, which the sanity check refuses; and
a new op starts at the file that carries the tag rather than at the next one.  Recovery succeeds
only where that file is an eligible file zero that goes with the rest of the stream
(`recovers_iff`).
-/

namespace Marfs.Gc

open Rman Datastream Tagging Rman.Streamwalker

variable {objtarget : Ftag → Option NeLocation} {refs : Refs} {gcthresh : Int}

/-! ## Interrupted streams -/

def finishListed (refs : Refs) (p : Nat) (file : RefFile) : Refs :=
  Refs.unlinkSpan (gapLength file) refs (p + 1)

/-- A pass was interrupted while it deleted the references listed in the GCTAG of file `p`, any of
which may be left.  Without them the stream is walkable, and no other deletion is in progress. -/
structure Interrupted (refs : Refs) (p : Nat) (file : RefFile) (ftag : Ftag) : Prop where
  file_eq : refs.file p = some file
  ftag_some : file.ftag = some ftag
  continues : ftag.endofstream = false ∧ ftag.unfinalized = false
  listed : gapLength file ≠ 0
  inprog : (file.gctag.getD Gctag.none).inprog = true
  walkable : Walkable (finishListed refs p file)
  others : ∀ {j file'}, (finishListed refs p file).file j = some file' → j ≠ p →
    (file'.gctag.getD Gctag.none).inprog = false

variable {p : Nat} {file : RefFile} {ftag : Ftag}

theorem file_finishListed (refs : Refs) (p : Nat) (file : RefFile) (j : Nat) :
    (finishListed refs p file).file j =
      if p < j ∧ j ≤ p + gapLength file then none else refs.file j := by
  rw [finishListed, Refs.file_unlinkSpan]
  have hiff : (p + 1 ≤ j ∧ j < p + 1 + gapLength file) ↔ (p < j ∧ j ≤ p + gapLength file) := by
    omega
  simp only [hiff]

variable {j : Nat} {op : Opinfo} {walker : Streamwalker} {done done' : Refs} {chain : List Opinfo}

theorem outside_listed {cur : RefFile} (hj : (finishListed refs p file).file j = some cur) :
    (j ≤ p ∨ p + gapLength file < j) ∧ refs.file j = some cur := by
  rw [file_finishListed] at hj
  split at hj
  · cases hj
  · exact ⟨by omega, hj⟩

namespace Interrupted

variable (h : Interrupted refs p file ftag)
include h

theorem file_p : (finishListed refs p file).file p = some file := by
  rw [file_finishListed, if_neg (by omega), h.file_eq]

variable {walker walker' : Streamwalker}

theorem next_eq (hw : Located (finishListed refs p file) walker) :
    (finishListed refs p file).file (walker.fileno + (1 + walker.gctag.refcnt)) =
      refs.file (walker.fileno + (1 + walker.gctag.refcnt)) := by
  obtain ⟨cur, hcur, -, hgap, -⟩ := hw.file
  obtain ⟨hpos, -⟩ := outside_listed hcur
  rw [file_finishListed, if_neg]
  rcases Nat.lt_trichotomy walker.fileno p with hlt | heq | hgt
  · have := h.walkable.next_le hcur h.file_p hlt
    omega
  · rw [heq, h.file_p] at hcur
    obtain rfl := Option.some.inj hcur
    omega
  · omega

theorem visitStep {gcops rbldops : List Opinfo} (hw : Located (finishListed refs p file) walker)
    (hstep : VisitStep objtarget refs walker walker' gcops rbldops) :
    VisitStep objtarget (finishListed refs p file) walker walker' gcops rbldops := by
  obtain ⟨hcont, walker₁, next, nexttag, hrec, heos, hfile, htag, hvisit⟩ := hstep
  obtain ⟨-, hno, -, hcnt⟩ := recoverInprog_gctag hrec
  refine ⟨hcont, walker₁, next, nexttag, hrec, heos, ?_, htag, hvisit⟩
  rw [hno, hcnt] at hfile ⊢
  rw [h.next_eq hw, hfile]

theorem leaveStep (hw : Located (finishListed refs p file) walker) (hstep : LeaveStep refs walker walker') :
    LeaveStep (finishListed refs p file) walker walker' := by
  cases hstep with
  | ended hcont heq => exact .ended hcont heq
  | gctagEos hcont hrec heos => exact .gctagEos hcont hrec heos
  | untagged hcont walker₁ walker₂ next hrec hfile huntag hcur hops htrl heos =>
    obtain ⟨-, hno, -, hcnt⟩ := recoverInprog_gctag hrec
    refine .untagged hcont walker₁ walker₂ next hrec ?_ huntag hcur hops htrl heos
    rw [hno, hcnt] at hfile ⊢
    rw [h.next_eq hw, hfile]
  | missing hcont walker₁ hrec hpos hcur heff heos hmiss =>
    obtain ⟨-, hno, -, hcnt⟩ := recoverInprog_gctag hrec
    refine .missing hcont walker₁ hrec hpos hcur heff heos ?_
    rw [hno, hcnt] at hmiss ⊢
    rw [h.next_eq hw, hmiss]

end Interrupted

/-! ## The turn that recovers -/

section Recover

variable {walker walker₁ walker' : Streamwalker}

/-- After recovery the deletion is no longer in progress, and nothing else has moved. -/
theorem Located.recover (hw : Located refs walker) (hrec : walker.recoverInprog = some walker₁) :
    Located refs walker₁ := by
  obtain ⟨-, hno, hft, hcnt⟩ := recoverInprog_gctag hrec
  obtain ⟨cur, hcur, htag, hgap, heos⟩ := hw.file
  rcases recoverInprog_some hrec with ⟨-, rfl⟩ | ⟨-, op, -, hc, -⟩
  · exact hw
  · have hobj : walker₁.objno = walker.objno := by
      simpa [cursor] using congrArg Streamwalker.objno hc
    have hg : walker₁.gctag = { walker.gctag with inprog := false } := by
      simpa [cursor] using congrArg Streamwalker.gctag hc
    exact ⟨⟨cur, by rw [hno, hcur], by rw [hft, htag], by rw [hcnt, hgap], by rw [hg, heos]⟩,
      by rw [hobj, hw.objno_eq, hft]⟩

theorem recoverInprog_of_complete (hprog : walker.gctag.inprog = false) :
    walker.recoverInprog = some walker := by
  simp [recoverInprog, hprog]

theorem VisitStep.recovered {gcops rbldops : List Opinfo} (hrec : walker.recoverInprog = some walker₁)
    (hprog : walker₁.gctag.inprog = false) (hstep : VisitStep objtarget refs walker walker' gcops rbldops) :
    VisitStep objtarget refs walker₁ walker' gcops rbldops := by
  obtain ⟨hcont, walker₂, next, nexttag, hrec₂, hrest⟩ := hstep
  obtain rfl := Option.some.inj (hrec.symm.trans hrec₂)
  obtain ⟨-, -, hft, -⟩ := recoverInprog_gctag hrec
  refine ⟨?_, walker₁, next, nexttag, recoverInprog_of_complete hprog, hrest⟩
  rw [Continues, hft]
  exact hcont

theorem LeaveStep.recovered (hcont : walker.Continues)
    (hrec : walker.recoverInprog = some walker₁) (hprog : walker₁.gctag.inprog = false)
    (hstep : LeaveStep refs walker walker') : LeaveStep refs walker₁ walker' := by
  obtain ⟨-, -, hft, -⟩ := recoverInprog_gctag hrec
  have hcont₁ : walker₁.Continues := by rw [Continues, hft]; exact hcont
  have hrec₁ := recoverInprog_of_complete hprog
  cases hstep with
  | ended hend _ => exact absurd hcont hend
  | gctagEos _ hrec₂ heos =>
    obtain rfl := Option.some.inj (hrec.symm.trans hrec₂)
    exact .gctagEos hcont₁ hrec₁ heos
  | untagged _ walker₂ walker₃ next hrec₂ hfile huntag hcur hops htrl heos =>
    obtain rfl := Option.some.inj (hrec.symm.trans hrec₂)
    exact .untagged hcont₁ _ walker₃ next hrec₁ hfile huntag hcur hops htrl heos
  | missing _ walker₂ hrec₂ hpos hcur heff heos hmiss =>
    obtain rfl := Option.some.inj (hrec.symm.trans hrec₂)
    exact .missing hcont₁ _ hrec₁ hpos hcur heff heos hmiss

theorem Completes.not_stuck (hgc : gcthresh ≠ 0) (hat : walker.AtFile gcthresh)
    (hcont : walker.Continues) (hstuck : walker.recoverInprog = none) {done done' : Refs}
    {last : Streamwalker} : ¬ Completes objtarget refs walker done last done' := by
  intro hrun
  have hinv : ExecInvariant objtarget refs gcthresh
      (fun walker _ => walker.Continues ∧ walker.recoverInprog = none) (fun _ => False) := by
    refine ⟨?_, ?_⟩
    · rintro w w' gcops rbldops d d' - ⟨-, hnone⟩ ⟨-, w₁, -, -, hrec, -⟩ -
      rw [hnone] at hrec
      cases hrec
    · rintro w w' d d' - ⟨hcont, hnone⟩ hleav -
      cases hleav with
      | ended hend _ => exact absurd hcont hend
      | gctagEos _ hrec _ => rw [hnone] at hrec; cases hrec
      | untagged _ _ _ _ hrec => rw [hnone] at hrec; cases hrec
      | missing _ _ hrec => rw [hnone] at hrec; cases hrec
  exact hrun.result hgc hinv hat ⟨hcont, hstuck⟩

end Recover

/-! ## A tag that is not on an eligible file zero -/

theorem addReference_covers {eos : Bool} {base : Opinfo} (hcov : base.CoversRef j)
    (hop : walker.addReference eos base = some op) : op.CoversRef j := by
  obtain ⟨-, hlo, hhi⟩ := hcov
  obtain ⟨hty, ⟨-, -, hst, hcnt, -⟩ | ⟨hzero, -⟩⟩ := addReference_some hop
  · exact ⟨hty, by omega, by omega⟩
  · omega

theorem executeChain_covers (hone : OneDelref chain) (hop : delrefOp chain = some op) (hcov : op.CoversRef j)
    (hexec : executeChain done chain = some done') : done'.file j = none := by
  rw [executeChain_inv hone hop hexec j, if_pos hcov]

/-- Nothing comes back. -/
theorem executeChain_gone (hone : OneDelref chain) (hexec : executeChain done chain = some done')
    (hgone : done.file j = none) : done'.file j = none := by
  cases hop : delrefOp chain with
  | none =>
    rw [executeChain_none hone hop] at hexec
    rw [← Option.some.inj hexec, hgone]
  | some op =>
    rw [executeChain_inv hone hop hexec j, hgone]
    split
    · rfl
    · split <;> rfl

structure Covering (refs : Refs) (gcthresh : Int) (p : Nat) (walker : Streamwalker) (done : Refs) :
    Prop where
  gcthresh_eq : walker.gcthresh = gcthresh
  located : Located refs walker
  complete : walker.gctag.inprog = false
  behind : p ≤ walker.fileno
  one : OneDelref walker.gcops
  covers : done.file p = none ∨ ∃ op, walker.pending = some op ∧ op.CoversRef p

theorem transitionPending_covers (prevdelzero : Bool) (hop : walker.pending = some op)
    (hcov : op.CoversRef j) : ∃ op', walker.transitionPending prevdelzero = some op' ∧ op'.CoversRef j := by
  unfold transitionPending
  rw [hop]
  split
  · exact ⟨_, rfl, rfl, hcov.2⟩
  · exact ⟨op, rfl, hcov⟩

section Covering

variable {walker walker' : Streamwalker} {done done' : Refs}

theorem Visited.located {loaded : Streamwalker} {next : RefFile} {nexttag : Ftag}
    (hn : Next refs walker loaded next nexttag) (hv : Visited loaded walker') : Located refs walker' := by
  have hgct : loaded.gctag = next.gctag.getD Gctag.none := by rw [hn.loaded_eq]; rfl
  refine ⟨⟨next, ?_, ?_, ?_, ?_⟩, by rw [hv.objno_eq, hv.ftag_eq]⟩
  · rw [hv.fileno_eq, hn.ftag_eq, hn.fileno_eq, hn.file_eq]
  · rw [hv.ftag_eq, hn.ftag_eq, hn.ftag_some]
  · rw [hv.gctag_eq, hgct]; rfl
  · rw [hv.gctag_eq, hgct]

theorem Covering.visit (hgc : gcthresh ≠ 0) (hs : Walkable refs)
    (hoths : ∀ {j file}, refs.file j = some file → p < j →
      (file.gctag.getD Gctag.none).inprog = false) (h : Covering refs gcthresh p walker done)
    {gcops rbldops : List Opinfo} (hstep : VisitStep objtarget refs walker walker' gcops rbldops)
    (hexec : executeChain done gcops = some done') : Covering refs gcthresh p walker' done' := by
  obtain ⟨loaded, next, nexttag, hn, hvisit⟩ := h.located.next hs h.complete hstep
  have hload := hn.loaded_eq
  have hth : loaded.gcthresh = gcthresh := by rw [hload]; exact h.gcthresh_eq
  have hstat : loaded.stval = next.stat := by rw [hload]; rfl
  have hgct : loaded.gctag = next.gctag.getD Gctag.none := by rw [hload]; rfl
  have hone : OneDelref loaded.gcops := by rw [hload]; exact h.one
  have hpend : loaded.pending = walker.pending := by rw [hload]; rfl
  have hbeh : p < walker.fileno + (1 + walker.gctag.refcnt) := by
    have := h.behind
    omega
  have hcomp : loaded.gctag.inprog = false := by rw [hgct]; exact hoths hn.file_eq hbeh
  cases helig : next.stat.eligible gcthresh with
  | false =>
    obtain ⟨-, hv, hops, -, -, heff⟩ := visitFile_live (by rwa [hth]) (by rwa [hstat, hth]) hvisit
    refine ⟨hv.gcthresh_eq.trans hth, Visited.located hn hv, by rw [hv.gctag_eq, hcomp], ?_,
      by rw [hops]; simp, .inl ?_⟩
    · rw [hv.fileno_eq, hn.ftag_eq, hn.fileno_eq]
      omega
    · rcases h.covers with hgone | ⟨op, hop, hcov⟩
      · exact executeChain_gone (heff.one hone) hexec hgone
      · obtain ⟨op', hop', hcov'⟩ :=
          transitionPending_covers walker.gctag.delzero (hpend.trans hop) hcov
        exact executeChain_covers (heff.one hone) (heff.pending_eq.trans hop') hcov' hexec
  | true =>
    obtain ⟨-, hv, rfl, -, -, walker₂, op₂, -, hop₂, heff⟩ :=
      visitFile_eligible (by rwa [hth]) (by rwa [hstat, hth]) hvisit
    obtain rfl := Option.some.inj hexec
    refine ⟨hv.gcthresh_eq.trans hth, Visited.located hn hv, by rw [hv.gctag_eq, hcomp], ?_,
      heff.one hone, ?_⟩
    · rw [hv.fileno_eq, hn.ftag_eq, hn.fileno_eq]
      omega
    · refine h.covers.imp_right fun ⟨op, hop, hcov⟩ => ⟨_, heff.pending_eq, ?_⟩
      obtain ⟨op', hop', hcov'⟩ :=
        transitionPending_covers walker.gctag.delzero (hpend.trans hop) hcov
      rw [hop', Option.getD_some] at hop₂
      have hcov₂ := addReference_covers hcov' hop₂
      unfold eligiblePending
      split
      · exact ⟨rfl, hcov₂.2⟩
      · exact hcov₂

theorem Covering.leave (hs : Walkable refs) (h : Covering refs gcthresh p walker done)
    (hstep : LeaveStep refs walker walker') (hexec : executeChain done walker'.gcops = some done') :
    Covering refs gcthresh p walker'.cleared done' ∧ done'.file p = none := by
  obtain ⟨rfl, -⟩ := h.located.leave hs h.complete hstep
  have hgone : done'.file p = none := by
    rcases h.covers with hgone | ⟨op, hop, hcov⟩
    · exact executeChain_gone h.one hexec hgone
    · exact executeChain_covers h.one hop hcov hexec
  have hloc := h.located
  have hprog := h.complete
  exact ⟨⟨h.gcthresh_eq, ⟨hloc.file, hloc.objno_eq⟩, hprog, h.behind, by simp [cleared], .inl hgone⟩,
    hgone⟩

end Covering

/-! ## The turn at the tag -/

namespace Interrupted

variable {walker walker' : Streamwalker} {done done' : Refs} (h : Interrupted refs p file ftag)
include h

theorem at_p (hw : WalkInv (finishListed refs p file) gcthresh walker) (hp : walker.fileno = p) :
    walker.ftag = ftag ∧ walker.gctag = file.gctag.getD Gctag.none ∧ walker.Continues := by
  obtain ⟨cur, hcur, htag, hgct⟩ := hw.file
  rw [hp, h.file_p] at hcur
  obtain rfl := Option.some.inj hcur
  have hft : walker.ftag = ftag := Option.some.inj (htag.symm.trans h.ftag_some)
  exact ⟨hft, hgct, by rw [Continues, hft]; exact h.continues⟩

/-- Everywhere else nothing is in progress. -/
theorem complete (hw : WalkInv (finishListed refs p file) gcthresh walker)
    (hp : walker.fileno ≠ p) : walker.gctag.inprog = false := by
  obtain ⟨cur, hcur, -, hgct⟩ := hw.file
  rw [hgct]
  exact h.others hcur hp

theorem recovering (hgc : gcthresh ≠ 0)
    (hw : WalkInv (finishListed refs p file) gcthresh walker) (hp : walker.fileno = p) :
    (walker.gctag.refcnt ≠ 0 && walker.gctag.inprog && walker.gcthresh ≠ 0) = true := by
  obtain ⟨-, hgct, -⟩ := h.at_p hw hp
  have hne : (file.gctag.getD Gctag.none).refcnt ≠ 0 := h.listed
  rw [hw.gcthresh_eq, hgct, h.inprog]
  simp [hne, hgc]

theorem refused (hgc : gcthresh ≠ 0) (hw : WalkInv (finishListed refs p file) gcthresh walker)
    (hp : walker.fileno = p) {op : Opinfo} (hop : walker.pending = some op) (hcnt : op.count ≠ 0)
    (hend : op.ftag.fileno + op.count = p + (1 + gapLength file)) : walker.recoverInprog = none := by
  have hlisted := h.listed
  have hreach : op.ftag.fileno + op.count - 1 ≠ walker.fileno := by omega
  have hadd : walker.addInprog op = none := by rw [addInprog, if_pos hcnt, if_pos hreach]
  rw [recoverInprog, if_pos (h.recovering hgc hw hp)]
  dsimp only
  rw [updateDelref_eq, hop, Option.getD_some, hadd]
  rfl

theorem starts (hgc : gcthresh ≠ 0) (hw : WalkInv (finishListed refs p file) gcthresh walker)
    (hp : walker.fileno = p) (hnone : walker.pending = none) :
    ∃ walker₁ op, walker.recoverInprog = some walker₁ ∧ walker₁.gctag.inprog = false ∧
      walker₁.cursor = { walker.cursor with gctag := { walker.gctag with inprog := false } } ∧
      OpsEffect walker.gcops walker₁.gcops (some op) (fun _ => False) ∧
      op.type = .deleteRef ∧ op.errval = 0 ∧ op.ftag.fileno = p ∧
      op.count = gapLength file ∧ op.delrefinf.prevActiveIndex = walker.activeindex := by
  obtain ⟨hft, hgct, -⟩ := h.at_p hw hp
  have hno : walker.ftag.fileno = p := by
    rw [hft]
    exact h.walkable.fileno_eq h.file_p h.ftag_some
  let base := newOperation .deleteRef (walker.ftag.atFile (walker.ftag.fileno + 1))
  let op := ({ base with
      count := walker.gctag.refcnt
      ftag := base.ftag.atFile walker.ftag.fileno }.setDelref
    { base.delrefinf with prevActiveIndex := walker.activeindex, eos := walker.gctag.eos })
  have hadd : walker.addInprog base = some op := rfl
  let report := { walker.report with delfiles := walker.report.delfiles + walker.gctag.refcnt }
  refine ⟨{ walker with
      gcops := putDelref walker.gcops op
      report := report
      gctag := { walker.gctag with inprog := false } }, op, ?_, rfl, rfl, .put walker.gcops rfl,
    rfl, rfl, hno, congrArg Gctag.refcnt hgct, rfl⟩
  rw [recoverInprog, if_pos (h.recovering hgc hw hp)]
  dsimp only
  rw [updateDelref_eq, hnone, Option.getD_none, hadd]
  rfl

end Interrupted

inductive ToTag (refs : Refs) (gcthresh : Int) (p : Nat) (file : RefFile) (walker : Streamwalker)
    (done : Refs) : Prop
  | before (h : WalkInv (finishListed refs p file) gcthresh walker) (hle : walker.fileno ≤ p)
      (helig : walker.fileno = p → file.stat.eligible gcthresh = true → walker.activeindex < p)
      (hlive : walker.fileno = p → file.stat.eligible gcthresh = false → walker.pending = none)
  | behind (h : Covering (finishListed refs p file) gcthresh p walker done)
      (hlive : file.stat.eligible gcthresh = false)

section ToTag

variable {walker walker' : Streamwalker} {done done' : Refs}

/-- An eligible file behind file zero carries the tag: the pending op already ends behind the listed
references. -/
theorem Interrupted.stuck (h : Interrupted refs p file ftag) (hgc : gcthresh ≠ 0)
    (hw : WalkInv (finishListed refs p file) gcthresh walker) (hp : walker.fileno = p)
    (hlt : walker.activeindex < p) : walker.recoverInprog = none := by
  obtain ⟨-, hgct, -⟩ := h.at_p hw hp
  have hgap : walker.gctag.refcnt = gapLength file := by rw [hgct]; rfl
  have hpend := hw.pend
  rw [hp, hgap] at hpend
  have hcnt : ∃ op, walker.pending = some op ∧ op.count ≠ 0 := by
    by_contra hne
    have := hpend.fresh fun op hop => by
      by_contra hc
      exact hne ⟨op, hop, hc⟩
    omega
  obtain ⟨op, hop, hc⟩ := hcnt
  rcases (hpend.gapOp op hop).range with ⟨-, hend⟩ | ⟨hzero, -⟩
  · exact h.refused hgc hw hp hop hc hend
  · exact absurd hzero hc

theorem Interrupted.covering (h : Interrupted refs p file ftag) (hgc : gcthresh ≠ 0)
    (hw : WalkInv (finishListed refs p file) gcthresh walker) (hp : walker.fileno = p)
    (hnone : walker.pending = none) (done : Refs) :
    ∃ walker₁, walker.recoverInprog = some walker₁ ∧ walker₁.gctag.inprog = false ∧
      Covering (finishListed refs p file) gcthresh p walker₁ done := by
  obtain ⟨walker₁, op, hrec, hprog, -, heff, hty, -, hlo, hc, -⟩ := h.starts hgc hw hp hnone
  obtain ⟨hth, hno, -, -⟩ := recoverInprog_gctag hrec
  have hlisted := h.listed
  exact ⟨walker₁, hrec, hprog, hth.trans hw.gcthresh_eq, hw.located.recover hrec, hprog,
    by omega, heff.one hw.one, .inr ⟨op, heff.pending_eq, hty, by omega, by omega⟩⟩

theorem toTag_exec (hgc : gcthresh ≠ 0) (h : Interrupted refs p file ftag) :
    ExecInvariant objtarget refs gcthresh (ToTag refs gcthresh p file)
      fun done => file.stat.eligible gcthresh = false ∧ done.file p = none where
  visit {walker walker' gcops rbldops done done'} _ hw hstep hexec := by
    have hoths : ∀ {j file'}, (finishListed refs p file).file j = some file' → p < j →
        (file'.gctag.getD Gctag.none).inprog = false := fun hj hlt => h.others hj (by omega)
    cases hw with
    | behind hcov hlive =>
      exact .behind (hcov.visit hgc h.walkable hoths (h.visitStep hcov.located hstep) hexec) hlive
    | before hw hle helig hlive =>
      have hstep' := h.visitStep hw.located hstep
      rcases Nat.eq_or_lt_of_le hle with hp | hlt
      · cases hfile : file.stat.eligible gcthresh with
        | true =>
          have hnone := h.stuck hgc hw hp (helig hp hfile)
          obtain ⟨-, walker₁, -, -, hrec, -⟩ := hstep
          rw [hnone] at hrec
          cases hrec
        | false =>
          obtain ⟨walker₁, hrec, hprog, hcov⟩ := h.covering hgc hw hp (hlive hp hfile) done
          exact .behind (hcov.visit hgc h.walkable hoths
            (VisitStep.recovered hrec hprog hstep') hexec) hfile
      · obtain ⟨hw', hno, next, hnext, hcase⟩ :=
          hw.visit hgc h.walkable (h.complete hw (by omega)) hstep'
        obtain ⟨cur, hcur, -, hgap, -⟩ := hw.located.file
        have hle' := h.walkable.next_le hcur h.file_p hlt
        refine .before hw' (by omega) (fun hp hf => ?_) (fun hp hf => ?_)
        · rcases hcase with ⟨hnot, -⟩ | ⟨-, hidx, -⟩
          · rw [hp, h.file_p] at hnext
            obtain rfl := Option.some.inj hnext
            rw [hf] at hnot; cases hnot
          · have := hw.active_le
            omega
        · rcases hcase with ⟨-, -, hnil, -⟩ | ⟨hyes, -⟩
          · rw [Streamwalker.pending, hnil]; rfl
          · rw [hp, h.file_p] at hnext
            obtain rfl := Option.some.inj hnext
            rw [hf] at hyes; cases hyes
  leave {walker walker' done done'} _ hw hstep hexec := by
    cases hw with
    | behind hcov hlive =>
      obtain ⟨hcov', hgone⟩ := hcov.leave h.walkable (h.leaveStep hcov.located hstep) hexec
      exact ⟨.behind hcov' hlive, hlive, hgone⟩
    | before hw hle helig hlive =>
      have hstep' := h.leaveStep hw.located hstep
      rcases Nat.eq_or_lt_of_le hle with hp | hlt
      · obtain ⟨-, -, hcont⟩ := h.at_p hw hp
        cases hfile : file.stat.eligible gcthresh with
        | true =>
          have hnone := h.stuck hgc hw hp (helig hp hfile)
          cases hstep with
          | ended hend _ => exact absurd hcont hend
          | gctagEos _ hrec _ => rw [hnone] at hrec; cases hrec
          | untagged _ _ _ _ hrec => rw [hnone] at hrec; cases hrec
          | missing _ _ hrec => rw [hnone] at hrec; cases hrec
        | false =>
          obtain ⟨walker₁, hrec, hprog, hcov⟩ := h.covering hgc hw hp (hlive hp hfile) done
          obtain ⟨hcov', hgone⟩ := hcov.leave h.walkable
            (LeaveStep.recovered hcont hrec hprog hstep') hexec
          exact ⟨.behind hcov' hfile, rfl, hgone⟩
      · -- the stream does not end before the tag
        obtain ⟨-, heos⟩ := hw.located.leave h.walkable (h.complete hw (by omega)) hstep'
        have hnone := hw.located.behind_end h.walkable heos hlt
        rw [h.file_p] at hnone
        cases hnone

end ToTag

/-! ## A tag on an eligible file zero -/

/-- The pending op starts at file zero and ends right before the next reference. -/
structure Sweeping (refs : Refs) (gcthresh : Int) (walker : Streamwalker) : Prop where
  gcthresh_eq : walker.gcthresh = gcthresh
  located : Located refs walker
  complete : walker.gctag.inprog = false
  one : OneDelref walker.gcops
  index : walker.activeindex = 0
  collected : ∀ {j file}, 0 < j → j ≤ walker.fileno → refs.file j = some file →
    file.stat.eligible gcthresh = true
  pend : ∃ op, walker.pending = some op ∧ op.errval = 0 ∧ op.ftag.fileno = 0 ∧
    op.delrefinf.prevActiveIndex = 0 ∧ op.count = walker.fileno + walker.gctag.refcnt ∧
    op.count ≠ 0

section Sweeping

variable {walker walker' : Streamwalker} {done done' : Refs}

theorem transitionPending_keeps {walker : Streamwalker} (prevdelzero : Bool) {op : Opinfo}
    (hop : walker.pending = some op) :
    ∃ op', walker.transitionPending prevdelzero = some op' ∧ op'.errval = op.errval ∧
      op'.ftag = op.ftag ∧ op'.count = op.count ∧
      op'.delrefinf.prevActiveIndex = op.delrefinf.prevActiveIndex := by
  unfold transitionPending
  rw [hop]
  split
  · exact ⟨_, rfl, rfl, rfl, rfl, rfl⟩
  · exact ⟨op, rfl, rfl, rfl, rfl, rfl⟩

variable {eos : Bool}

theorem addReference_errval {walker : Streamwalker} {base op : Opinfo}
    (h : walker.addReference eos base = some op) : op.errval = base.errval := by
  unfold addReference at h
  split at h
  · split at h
    · cases h
    · obtain rfl := Option.some.inj h
      rfl
  · obtain rfl := Option.some.inj h
    rfl

theorem Sweeping.visit (hgc : gcthresh ≠ 0) (hs : Walkable refs)
    (hoths : ∀ {j file}, refs.file j = some file → 0 < j →
      (file.gctag.getD Gctag.none).inprog = false) (h : Sweeping refs gcthresh walker)
    {gcops rbldops : List Opinfo} (hstep : VisitStep objtarget refs walker walker' gcops rbldops) :
    (Sweeping refs gcthresh walker' ∧ gcops = []) ∨
      (WalkInv refs gcthresh walker' ∧ walker'.activeindex = walker'.fileno ∧
        walker'.fileno = walker.fileno + (1 + walker.gctag.refcnt) ∧ OneDelref gcops ∧
        (∃ file, refs.file walker'.fileno = some file ∧ file.stat.eligible gcthresh = false) ∧
        ∃ op, delrefOp gcops = some op ∧ op.ftag.fileno = 0 ∧
          op.delrefinf.prevActiveIndex = 0 ∧
          op.count = walker.fileno + walker.gctag.refcnt ∧ op.count ≠ 0) := by
  obtain ⟨loaded, next, nexttag, hn, hvisit⟩ := h.located.next hs h.complete hstep
  have hload := hn.loaded_eq
  have hth : loaded.gcthresh = gcthresh := by rw [hload]; exact h.gcthresh_eq
  have hstat : loaded.stval = next.stat := by rw [hload]; rfl
  have hgct : loaded.gctag = next.gctag.getD Gctag.none := by rw [hload]; rfl
  have hone : OneDelref loaded.gcops := by rw [hload]; exact h.one
  have hpend : loaded.pending = walker.pending := by rw [hload]; rfl
  have hno := hn.fileno_eq
  have hfile' : refs.file nexttag.fileno = some next := hno ▸ hn.file_eq
  obtain ⟨base, hbase, herr, hlo, hprev, hcnt, hne⟩ := h.pend
  obtain ⟨op, hop, herr', hft', hcnt', hprev'⟩ :=
    transitionPending_keeps walker.gctag.delzero (hpend.trans hbase)
  cases helig : next.stat.eligible gcthresh with
  | false =>
    obtain ⟨-, hv, hops, hact, hfiles, heff⟩ :=
      visitFile_live (by rwa [hth]) (by rwa [hstat, hth]) hvisit
    have hfno : walker'.fileno = nexttag.fileno := by rw [hv.fileno_eq, hn.ftag_eq]
    exact .inr ⟨.of_live hth hfile' hn.ftag_some hn.ftag_eq hgct hv hops hact (by omega),
      by rw [hact, hfno, hn.ftag_eq], by rw [hfno, hno], heff.one hone,
      ⟨next, by rw [hfno, hfile'], helig⟩,
      op, heff.pending_eq.trans hop, by rw [hft', hlo], by omega, by omega, by omega⟩
  | true =>
    obtain ⟨-, hv, hnil, hact, -, walker₂, op₂, hcur₂, hop₂, heff⟩ :=
      visitFile_eligible (by rwa [hth]) (by rwa [hstat, hth]) hvisit
    have hfno : walker'.fileno = nexttag.fileno := by rw [hv.fileno_eq, hn.ftag_eq]
    have hgct₂ : walker₂.gctag = loaded.gctag := by
      simpa [cursor] using congrArg Streamwalker.gctag hcur₂
    rw [hop, Option.getD_some] at hop₂
    have herr₂ := addReference_errval hop₂
    obtain ⟨-, ⟨-, -, hlo₂, hcnt₂, hinfo₂⟩ | ⟨hzero, -⟩⟩ := addReference_some hop₂
    swap
    · omega
    have hprev₂ : op₂.delrefinf.prevActiveIndex = op.delrefinf.prevActiveIndex := by rw [hinfo₂]
    rw [hft'] at hlo₂
    refine .inl ⟨⟨hv.gcthresh_eq.trans hth, Visited.located hn hv, ?_, heff.one hone, ?_, ?_, ?_⟩,
      hnil⟩
    · rw [hv.gctag_eq, hgct]
      exact hoths hn.file_eq (by omega)
    · rw [hact, hload]; exact h.index
    · intro j file hpos hle hj
      rw [hfno] at hle
      rcases Nat.lt_or_ge walker.fileno j with hnew | hold
      · rcases Nat.lt_or_ge j nexttag.fileno with hin | hat
        · rw [hn.gap j hnew hin] at hj; cases hj
        · obtain rfl : j = nexttag.fileno := by omega
          obtain rfl : next = file := Option.some.inj (hfile'.symm.trans hj)
          exact helig
      · exact h.collected hpos hold hj
    · have hgct' : walker'.gctag.refcnt = walker₂.gctag.refcnt := by rw [hv.gctag_eq, hgct₂]
      refine ⟨_, heff.pending_eq, ?_⟩
      unfold eligiblePending
      split <;> exact ⟨by change op₂.errval = 0; omega, hlo₂.trans hlo,
        hprev₂.trans (hprev'.trans hprev), by change op₂.count = _; omega,
        by change op₂.count ≠ 0; omega⟩

/-- Ops between later files leave the references before them. -/
theorem executeChain_spares {chain : List Opinfo} {anchor position limit j : Nat} (hone : OneDelref chain)
    (hpend : PendingGap refs anchor position limit eos (delrefOp chain))
    (hexec : executeChain done chain = some done') (hj : j ≤ anchor) (hleft : done.file j ≠ none) :
    done'.file j ≠ none := by
  cases hop : delrefOp chain with
  | none =>
    rw [executeChain_none hone hop] at hexec
    rwa [← Option.some.inj hexec]
  | some op =>
    have hrange := (hpend.gapOp op hop).range
    have hcov : ¬ op.CoversRef j := by
      rintro ⟨-, hlo, hhi⟩
      omega
    rw [executeChain_inv hone hop hexec j, if_neg hcov]
    split
    · rw [ne_eq, Option.map_eq_none_iff]
      exact hleft
    · exact hleft

end Sweeping

end Marfs.Gc
