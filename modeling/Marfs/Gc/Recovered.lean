import Marfs.Gc.Interrupted

/-!
# When recovery works

Only a walk over a stream whose eligible file zero carries the in-progress tag recovers, and only
where nothing is left of the stream after it: every other walk is refused by the sanity check of the
recovery, or takes along the file that carries the tag (`recovers_iff`).
-/

namespace Marfs.Gc

open Rman Datastream Tagging Rman.Streamwalker

variable {objtarget : Ftag → Option NeLocation} {refs : Refs} {gcthresh : Int} {p : Nat}
  {file : RefFile} {ftag : Ftag}

/-- The interrupted deletion is complete: its references are gone, and the file that carried the tag
has it cleared, or was deleted as an eligible file; file zero goes with its stream only. -/
structure Recovered (gcthresh : Int) (p : Nat) (file : RefFile) (done : Refs) : Prop where
  listed : ∀ j, p < j → j ≤ p + gapLength file → done.file j = none
  cleared : ∀ file', done.file p = some file' → (file'.gctag.getD Gctag.none).inprog = false
  carrier : done.file p = none →
    file.stat.eligible gcthresh = true ∧ (p = 0 → ∀ j, done.file j = none)

def Recovers (objtarget : Ftag → Option NeLocation) (refs : Refs) (thresh : Thresholds)
    (rebuildloc : Option NeLocation) (p : Nat) (file : RefFile) : Prop :=
  ∃ n walker done, (walkStream objtarget refs thresh rebuildloc n).status = .complete walker ∧
    executeChains refs (walkStream objtarget refs thresh rebuildloc n).gcops = some done ∧
    Recovered thresh.gcthreshold p file done

def SweepsAll (refs : Refs) (gcthresh : Int) (file : RefFile) : Prop :=
  ∀ j file', gapLength file < j → refs.file j = some file' →
    file'.stat.eligible gcthresh = true ∧
      ∀ ltag, file'.ftag = some ltag → StreamEnds file' ltag → gapLength file' ≠ 0

/-- The streams whose recovery works: an eligible file zero carries the tag, and the stream goes as a
whole: either the tag ends it; or the objects of file zero are gone or shared with the next file,
and everything left is eligible, down to a gap behind the last file. -/
structure Recoverable (refs : Refs) (gcthresh : Int) (p : Nat) (file : RefFile) (ftag : Ftag) :
    Prop where
  zero : p = 0
  eligible : file.stat.eligible gcthresh = true
  rest : (file.gctag.getD Gctag.none).eos = true ∨
    ((datastreamFilebounds ftag = 0 ∨ (file.gctag.getD Gctag.none).delzero = true) ∧
      SweepsAll refs gcthresh file)

variable {walker walker₁ walker' : Streamwalker} {done done' : Refs}

/-! ## Opening the walker -/

theorem open_finishListed (refs : Refs) (p : Nat) (file : RefFile) (thresh : Thresholds)
    (rebuildloc : Option NeLocation) :
    processOpenstreamwalker objtarget (finishListed refs p file) thresh rebuildloc =
      processOpenstreamwalker objtarget refs thresh rebuildloc := by
  have hzero : (finishListed refs p file).file 0 = refs.file 0 := by
    rw [file_finishListed, if_neg (by omega)]
  unfold processOpenstreamwalker
  rw [hzero]

variable {thresh : Thresholds} {rebuildloc : Option NeLocation}

theorem opened_pending (hgc : thresh.gcthreshold ≠ 0) (hfile : refs.file 0 = some file)
    (htag : file.ftag = some ftag)
    (hopen : processOpenstreamwalker objtarget refs thresh rebuildloc = .opened walker) :
    walker.pending =
      if file.stat.eligible thresh.gcthreshold then
        (Streamwalker.initial thresh rebuildloc file ftag).openPending
          (datastreamFilebounds ftag) (Streamwalker.initial thresh rebuildloc file ftag).openEos
      else none := by
  obtain ⟨file', ftag', hfile', htag', hopen', -⟩ := opened_some hgc hopen
  obtain rfl := Option.some.inj (hfile.symm.trans hfile')
  obtain rfl := Option.some.inj (htag.symm.trans htag')
  obtain ⟨-, ⟨hno, hops⟩ | ⟨hyes, heff⟩⟩ :=
    openFile_some (Streamwalker.initial thresh rebuildloc file ftag) hgc hopen'
  · have hlive : file.stat.eligible thresh.gcthreshold = false := hno
    rw [if_neg (by simp [hlive]), Streamwalker.pending, hops]
    rfl
  · have helig : file.stat.eligible thresh.gcthreshold = true := hyes
    rw [if_pos helig]
    exact heff.pending_eq

/-! ## A recovered walker -/

theorem iterateStep_recovered (hcont : walker.Continues)
    (hrec : walker.recoverInprog = some walker₁) (hprog : walker₁.gctag.inprog = false) :
    walker.iterateStep objtarget refs = walker₁.iterateStep objtarget refs := by
  obtain ⟨-, -, hft, -⟩ := recoverInprog_gctag hrec
  have hends : (walker.ftag.endofstream || walker.ftag.unfinalized) = false := by
    rw [hcont.1, hcont.2]
    rfl
  simp only [iterateStep, hft, hends, Bool.false_eq_true, if_false, hrec,
    recoverInprog_of_complete hprog]

theorem Completes.of_recovered (hcont : walker.Continues)
    (hrec : walker.recoverInprog = some walker₁) (hprog : walker₁.gctag.inprog = false)
    {last : Streamwalker} (h : Completes objtarget refs walker₁ done last done') :
    Completes objtarget refs walker done last done' := by
  have heq : walker.iterateStep objtarget refs = walker₁.iterateStep objtarget refs :=
    iterateStep_recovered hcont hrec hprog
  cases h with
  | again hstep h => exact .again (heq.trans hstep) h
  | dispatched hstep hexec h => exact .dispatched (heq.trans hstep) hexec h
  | left hstep hops hexec h => exact .left (heq.trans hstep) hops hexec h
  | complete hstep hops => exact .complete (heq.trans hstep) hops

theorem completes_of_fileEos (heos : walker.fileEos = true) (hprog : walker.gctag.inprog = false)
    (hops : walker.gcops ≠ []) (hexec : executeChain done walker.gcops = some done') :
    Completes objtarget refs walker done walker.cleared done' := by
  have hleft : ∀ walker : Streamwalker, walker.fileEos = true → walker.gctag.inprog = false →
      walker.iterateStep objtarget refs = .left walker := by
    intro walker heos hprog
    by_cases hends : (walker.ftag.endofstream || walker.ftag.unfinalized) = true
    · rw [iterateStep, if_pos hends]
    · simp only [fileEos, hends, Bool.false_or, Bool.and_eq_true, decide_eq_true_eq] at heos
      have hcont : walker.Continues := by simpa [Continues] using hends
      exact iterateStep_gctagEos hcont (recoverInprog_of_complete hprog) heos
  refine .left (hleft _ heos hprog) (fun hnil => hops hnil.1) hexec ?_
  exact .complete (hleft walker.cleared heos hprog) ⟨rfl, rfl⟩

/-! ## An eligible file zero: what the sweep leaves -/

theorem Sweeping.execute {all : Refs} (h : Sweeping all gcthresh walker) (hzero : done.file 0 = some file) :
    ∃ done', executeChain done walker.gcops = some done' ∧
      ∀ j, done'.file j =
        if j < walker.fileno + walker.gctag.refcnt then none else done.file j := by
  obtain ⟨op, hop, herr, hlo, hprev, hcnt, hne⟩ := h.pend
  obtain ⟨done', hexec, hdel⟩ := executeChain_some h.one hop herr (hprev.symm ▸ hzero)
  refine ⟨done', hexec, fun j => ?_⟩
  have hcov : op.CoversRef j ↔ j < walker.fileno + walker.gctag.refcnt := by
    simp only [Opinfo.CoversRef, delrefOp_type hop, true_and, hlo]
    omega
  rw [hdel j, hprev]
  simp only [hcov]
  split
  · rfl
  · rw [if_neg (by omega)]

namespace Interrupted

theorem sweeping (h : Interrupted refs 0 file ftag) (hgc : gcthresh ≠ 0)
    (hw : WalkInv (finishListed refs 0 file) gcthresh walker) (hno : walker.fileno = 0)
    (hidx : walker.activeindex = 0) (hnone : walker.pending = none) :
    ∃ walker₁, walker.recoverInprog = some walker₁ ∧ walker₁.gctag.inprog = false ∧
      Sweeping (finishListed refs 0 file) gcthresh walker₁ := by
  obtain ⟨walker₁, op, hrec, hprog, hcur, heff, -, herr, hlo, hc, hprev⟩ :=
    h.starts hgc hw hno hnone
  obtain ⟨hth, hno₁, -, hcnt⟩ := recoverInprog_gctag hrec
  obtain ⟨-, hgct, -⟩ := h.at_p hw hno
  have hidx₁ : walker₁.activeindex = 0 := by
    rw [← hidx]
    simpa [cursor] using congrArg Streamwalker.activeindex hcur
  have hgap : walker₁.gctag.refcnt = gapLength file := by rw [hcnt, hgct]; rfl
  have hlisted := h.listed
  exact ⟨walker₁, hrec, hprog, hth.trans hw.gcthresh_eq, hw.located.recover hrec, hprog,
    heff.one hw.one, hidx₁, fun hpos hle => by omega,
    op, heff.pending_eq, herr, hlo, hprev.trans hidx, by omega, by omega⟩

theorem file_behind (refs : Refs) (file : RefFile) {j : Nat} (hj : gapLength file < j) :
    (finishListed refs 0 file).file j = refs.file j := by
  rw [file_finishListed, if_neg (by omega)]

end Interrupted

/-- A walk that started to sweep, over a stream that does not go as a whole: it met file zero, sweeps,
handed out the sweep at a live file, or is at the end. -/
inductive Swept (refs : Refs) (gcthresh : Int) (file : RefFile) (walker : Streamwalker)
    (done : Refs) : Prop
  | opened (h : WalkInv (finishListed refs 0 file) gcthresh walker) (hno : walker.fileno = 0)
      (hindex : walker.activeindex = 0) (hnone : walker.pending = none) (hd : done = refs)
  | sweeping (h : Sweeping (finishListed refs 0 file) gcthresh walker) (hd : done = refs)
  | behind (h : WalkInv (finishListed refs 0 file) gcthresh walker) (hpos : 0 < walker.activeindex)
      (hzero : done.file 0 = none) (hleft : ∃ j ≤ walker.activeindex, done.file j ≠ none)
  | finished (h : Finished (finishListed refs 0 file) walker) (hzero : done.file 0 = none)
      (hleft : ∃ j, done.file j ≠ none)

section Swept

variable {gcops rbldops : List Opinfo}

theorem Interrupted.complete_behind (h : Interrupted refs 0 file ftag) {j : Nat} {file' : RefFile}
    (hj : (finishListed refs 0 file).file j = some file') (hpos : 0 < j) :
    (file'.gctag.getD Gctag.none).inprog = false :=
  h.others hj (by omega)

theorem Sweeping.swept_visit (hgc : gcthresh ≠ 0) (h : Interrupted refs 0 file ftag)
    (hs : Sweeping (finishListed refs 0 file) gcthresh walker)
    (hstep : VisitStep objtarget (finishListed refs 0 file) walker walker' gcops rbldops)
    (hexec : executeChain refs gcops = some done') : Swept refs gcthresh file walker' done' := by
  rcases hs.visit hgc h.walkable h.complete_behind hstep with
    ⟨hs', rfl⟩ | ⟨hw', hidx, hno, hone, ⟨live, hlive, -⟩, op, hop, hlo, hprev, hcnt, hne⟩
  · exact .sweeping hs' (Option.some.inj hexec).symm
  · have hdel := executeChain_inv hone hop hexec
    have hcov : ∀ j, op.CoversRef j ↔ j < walker.fileno + walker.gctag.refcnt := fun j => by
      simp only [Opinfo.CoversRef, delrefOp_type hop, true_and, hlo]
      omega
    refine .behind hw' (by omega) ?_ ⟨walker'.fileno, by omega, ?_⟩
    · rw [hdel 0, if_pos ((hcov 0).2 (by omega))]
    · obtain ⟨-, hlive'⟩ := outside_listed hlive
      rw [hdel walker'.fileno, if_neg (by rw [hcov]; omega), if_neg (by omega), hlive']
      simp

theorem Sweeping.swept_leave (h : Interrupted refs 0 file ftag) (hnot : ¬ SweepsAll refs gcthresh file)
    (hs : Sweeping (finishListed refs 0 file) gcthresh walker) (heos : walker.fileEos = true)
    (hexec : executeChain refs walker.gcops = some done') :
    done'.file 0 = none ∧ ∃ j, done'.file j ≠ none := by
  obtain ⟨done₁, hexec₁, hdone⟩ := hs.execute h.file_eq
  obtain rfl := Option.some.inj (hexec₁.symm.trans hexec)
  obtain ⟨op, -, -, -, -, hcnt, hne⟩ := hs.pend
  refine ⟨by rw [hdone, if_pos (by omega)], ?_⟩
  simp only [SweepsAll, not_forall] at hnot
  obtain ⟨j, file', hj, hfile', hbad⟩ := hnot
  have hall : (finishListed refs 0 file).file j = some file' := by
    rw [Interrupted.file_behind refs file hj, hfile']
  have hle : j ≤ walker.fileno := by
    by_contra hlt
    rw [hs.located.behind_end h.walkable heos (by omega)] at hall
    cases hall
  have helig := hs.collected (by omega) hle hall
  simp only [helig, true_and, not_forall, not_not] at hbad
  obtain ⟨ltag, htag, hends, hgap⟩ := hbad
  -- the last file has no gap behind it, and the op stops short of it
  obtain ⟨cur, hcur, -, hcurgap, -⟩ := hs.located.file
  obtain rfl : j = walker.fileno := by
    by_contra hne
    rw [h.walkable.last hall htag hends (by omega)] at hcur
    cases hcur
  obtain rfl := Option.some.inj (hall.symm.trans hcur)
  exact ⟨walker.fileno, by rw [hdone, if_neg (by omega), hfile']; simp⟩

theorem swept_exec (hgc : gcthresh ≠ 0) (h : Interrupted refs 0 file ftag)
    (hnot : ¬ SweepsAll refs gcthresh file) :
    ExecInvariant objtarget refs gcthresh (Swept refs gcthresh file)
      fun done => done.file 0 = none ∧ ∃ j, done.file j ≠ none where
  visit {walker walker' gcops rbldops done done'} _ hw hstep hexec := by
    cases hw with
    | opened hw hno hidx hnone hd =>
      subst hd
      obtain ⟨walker₁, hrec, hprog, hs⟩ := h.sweeping hgc hw hno hidx hnone
      exact hs.swept_visit hgc h
        (VisitStep.recovered hrec hprog (h.visitStep hw.located hstep)) hexec
    | sweeping hs hd =>
      subst hd
      exact hs.swept_visit hgc h (h.visitStep hs.located hstep) hexec
    | behind hw hpos hzero hleft =>
      have hle := hw.active_le
      obtain ⟨hw', hno, -, -, ⟨-, hidx, -, hone, hpend⟩ | ⟨-, hidx, rfl⟩⟩ :=
        hw.visit hgc h.walkable (h.complete hw (by omega)) (h.visitStep hw.located hstep)
      · obtain ⟨j, hj, hleft⟩ := hleft
        exact .behind hw' (by omega) (executeChain_gone hone hexec hzero)
          ⟨j, by omega, executeChain_spares hone hpend hexec hj hleft⟩
      · obtain rfl := Option.some.inj hexec
        exact .behind hw' (by omega) hzero (by rw [hidx]; exact hleft)
    | finished hw hzero hleft =>
      exact absurd hstep (not_visit_of_fileEos hw.eos hw.complete)
  leave {walker walker' done done'} _ hw hstep hexec := by
    cases hw with
    | opened hw hno hidx hnone hd =>
      subst hd
      obtain ⟨walker₁, hrec, hprog, hs⟩ := h.sweeping hgc hw hno hidx hnone
      obtain ⟨-, -, hcont⟩ := h.at_p hw hno
      obtain ⟨rfl, heos⟩ := hs.located.leave h.walkable hprog
        (LeaveStep.recovered hcont hrec hprog (h.leaveStep hw.located hstep))
      obtain ⟨hzero, hleft⟩ := hs.swept_leave h hnot heos hexec
      obtain ⟨cur, hcur, -⟩ := hs.located.file
      exact ⟨.finished ⟨heos, hprog, rfl, ⟨cur, hcur⟩⟩ hzero hleft, hzero, hleft⟩
    | sweeping hs hd =>
      subst hd
      obtain ⟨rfl, heos⟩ := hs.located.leave h.walkable hs.complete
        (h.leaveStep hs.located hstep)
      obtain ⟨hzero, hleft⟩ := hs.swept_leave h hnot heos hexec
      obtain ⟨cur, hcur, -⟩ := hs.located.file
      have hprog := hs.complete
      exact ⟨.finished ⟨heos, hprog, rfl, ⟨cur, hcur⟩⟩ hzero hleft, hzero, hleft⟩
    | behind hw hpos hzero hleft =>
      have hle := hw.active_le
      have hprog := h.complete hw (by omega)
      obtain ⟨rfl, heos⟩ := hw.located.leave h.walkable hprog (h.leaveStep hw.located hstep)
      obtain ⟨j, hj, hleft⟩ := hleft
      have hzero' := executeChain_gone hw.one hexec hzero
      have hleft' := executeChain_spares hw.one hw.pend hexec hj hleft
      obtain ⟨cur, hcur, -⟩ := hw.file
      exact ⟨.finished ⟨heos, hprog, rfl, ⟨cur, hcur⟩⟩ hzero' ⟨j, hleft'⟩, hzero', j, hleft'⟩
    | finished hw hzero hleft =>
      obtain rfl := leave_of_fileEos hw.eos hw.complete hstep
      rw [hw.nil] at hexec
      obtain rfl := Option.some.inj hexec
      exact ⟨.finished hw.cleared hzero hleft, hzero, hleft⟩

end Swept

/-! ## Recovery only works for a stream that goes as a whole -/

section Opened

variable {thresh : Thresholds} {rebuildloc : Option NeLocation} {last : Streamwalker}
  (hgc : thresh.gcthreshold ≠ 0) (h : Interrupted refs p file ftag)
  (hopen : processOpenstreamwalker objtarget refs thresh rebuildloc = .opened walker)

theorem Interrupted.sole_eos (h : Interrupted refs p file ftag)
    (hsole : SoleEligible (finishListed refs p file) gcthresh) :
    p = 0 ∧ (file.gctag.getD Gctag.none).eos = true := by
  obtain ⟨zero, ztag, hzero, hztag, hends, -⟩ := hsole
  obtain rfl : p = 0 := by
    by_contra hp
    have hnone := h.walkable.last hzero hztag hends (Nat.pos_of_ne_zero hp)
    rw [h.file_p] at hnone
    cases hnone
  obtain rfl := Option.some.inj (h.file_p.symm.trans hzero)
  obtain rfl := Option.some.inj (h.ftag_some.symm.trans hztag)
  rcases hends with hend | hunfin | hgceos
  · rw [h.continues.1] at hend; cases hend
  · rw [h.continues.2] at hunfin; cases hunfin
  · exact ⟨rfl, hgceos⟩

include hgc h hopen

theorem Interrupted.opened :
    walker.AtFile thresh.gcthreshold ∧ walker.fileno = 0 ∧ walker.activeindex = 0 ∧
      ((WalkInv (finishListed refs p file) thresh.gcthreshold walker ∧
          ¬ SoleEligible (finishListed refs p file) thresh.gcthreshold) ∨
        Sole (finishListed refs p file) thresh.gcthreshold walker) := by
  rw [← open_finishListed refs p file] at hopen
  exact WalkInv.opened hgc h.walkable hopen

theorem Recovered.eligible_zero (hdone : Recovered thresh.gcthreshold p file done)
    (hrun : Completes objtarget refs walker refs last done) :
    p = 0 ∧ file.stat.eligible thresh.gcthreshold = true := by
  obtain ⟨hat, hno, hidx, hst⟩ := h.opened hgc hopen
  have hbef : ¬ ToTag refs thresh.gcthreshold p file walker refs := fun htag => by
    obtain ⟨hlive, hgone⟩ := hrun.result hgc (toTag_exec hgc h) hat htag
    rw [(hdone.carrier hgone).1] at hlive
    cases hlive
  obtain rfl : p = 0 := by
    rcases hst with ⟨hw, -⟩ | hsole
    · by_contra hp
      exact hbef (.before hw (by omega) (fun hat' => by omega) (fun hat' => by omega))
    · exact (h.sole_eos hsole.soleEligible).1
  refine ⟨rfl, ?_⟩
  by_contra hlive
  have hpend := opened_pending hgc h.file_eq h.ftag_some hopen
  rw [if_neg hlive] at hpend
  rcases hst with ⟨hw, -⟩ | hsole
  · exact hbef (.before hw (by omega) (fun _ hyes => absurd hyes hlive) fun _ _ => hpend)
  · obtain ⟨op, hop, -⟩ := hsole.pend
    rw [hpend] at hop
    cases hop

end Opened

section Zero

variable {thresh : Thresholds} {rebuildloc : Option NeLocation} {last : Streamwalker}
  (hgc : thresh.gcthreshold ≠ 0) (h : Interrupted refs 0 file ftag)
  (hopen : processOpenstreamwalker objtarget refs thresh rebuildloc = .opened walker)
  (helig : file.stat.eligible thresh.gcthreshold = true)
  (heos : (file.gctag.getD Gctag.none).eos = false)
include hgc h hopen helig heos

theorem Interrupted.pending_zero :
    ((datastreamFilebounds ftag = 0 ∨ (file.gctag.getD Gctag.none).delzero = true) ∧
        walker.pending = none) ∨
      (¬ (datastreamFilebounds ftag = 0 ∨ (file.gctag.getD Gctag.none).delzero = true) ∧
        ∃ op, walker.pending = some op ∧ op.count = gapLength file ∧ op.ftag.fileno = 1) := by
  have hpend := opened_pending hgc h.file_eq h.ftag_some hopen
  set initial := Streamwalker.initial thresh rebuildloc file ftag with hinit
  have hopeneos : initial.openEos = false := by
    simp [openEos, hinit, Streamwalker.initial, h.continues.1, h.continues.2, heos]
  have hdz : initial.gctag.delzero = (file.gctag.getD Gctag.none).delzero := rfl
  have hobj : initial.objno = 0 := rfl
  rw [if_pos helig, hopeneos] at hpend
  by_cases ho : initial.OpensObjs (datastreamFilebounds ftag) false
  · have hop : initial.openPending (datastreamFilebounds ftag) false =
        some (initial.openDummy false (newOperation .deleteRef ftag)) := by
      rw [openPending, if_pos ho]
      rfl
    obtain ⟨hbnds, hkeep⟩ := ho
    rw [hobj] at hbnds
    rw [hdz] at hkeep
    refine .inr ⟨by simpa [hkeep] using hbnds, ?_⟩
    have hlisted : initial.gctag.refcnt ≠ 0 := h.listed
    have hno : initial.ftag.fileno = 0 := h.walkable.fileno_eq h.file_p h.ftag_some
    refine ⟨_, hpend.trans hop, ?_⟩
    rcases openPending_some rfl hop with ⟨hf, -⟩ | ⟨-, -, ⟨hzero, -⟩ | ⟨-, hc, hlo⟩, -⟩
    · cases hf
    · exact absurd hzero hlisted
    · exact ⟨hc, by rw [hlo, hno]⟩
  · refine .inl ⟨?_, ?_⟩
    · by_contra hboth
      rw [not_or] at hboth
      exact ho ⟨.inl hboth.1, by rw [hdz]; simpa using hboth.2⟩
    · rw [hpend, openPending, if_neg ho]
      rfl

omit helig in
theorem Interrupted.walkInv_zero : WalkInv (finishListed refs 0 file) thresh.gcthreshold walker := by
  obtain ⟨-, -, -, ⟨hw, -⟩ | hsole⟩ := h.opened hgc hopen
  · exact hw
  · have := (h.sole_eos hsole.soleEligible).2
    rw [heos] at this
    cases this

theorem Recovered.sweeps (hdone : Recovered thresh.gcthreshold 0 file done)
    (hrun : Completes objtarget refs walker refs last done) :
    (datastreamFilebounds ftag = 0 ∨ (file.gctag.getD Gctag.none).delzero = true) ∧
      SweepsAll refs thresh.gcthreshold file := by
  obtain ⟨hat, hno, hidx, -⟩ := h.opened hgc hopen
  have hw := h.walkInv_zero hgc hopen heos
  obtain ⟨-, -, hcont⟩ := h.at_p hw hno
  have hlisted := h.listed
  rcases h.pending_zero hgc hopen helig heos with ⟨hobjs, hnone⟩ | ⟨-, op, hop, hc, hlo⟩
  · refine ⟨hobjs, ?_⟩
    by_contra hnot
    obtain ⟨hzero, j, hleft⟩ := hrun.result hgc (swept_exec hgc h hnot) hat
      (.opened hw hno hidx hnone rfl)
    exact hleft ((hdone.carrier hzero).2 rfl j)
  · have hstuck := h.refused hgc hw hno hop (by omega) (by omega)
    exact absurd hrun (Completes.not_stuck hgc hat hcont hstuck)

end Zero

theorem Recovers.recoverable (hgc : thresh.gcthreshold ≠ 0) (h : Interrupted refs p file ftag)
    (hrec : Recovers objtarget refs thresh rebuildloc p file) :
    Recoverable refs thresh.gcthreshold p file ftag := by
  obtain ⟨n, last, done, hwalk, hexec, hdone⟩ := hrec
  obtain ⟨walker, hopen, hrun⟩ := completes_of_walkStream hwalk hexec
  obtain ⟨rfl, helig⟩ := hdone.eligible_zero hgc h hopen hrun
  refine ⟨rfl, helig, ?_⟩
  cases heos : (file.gctag.getD Gctag.none).eos with
  | true => exact .inl rfl
  | false => exact .inr (hdone.sweeps hgc h hopen helig heos hrun)

/-! ## Recovery works for a stream that goes as a whole -/

section Progress

variable {thresh : Thresholds} (htarget : ∀ ftag, (objtarget ftag).isSome)

theorem Sweeping.swept_all (h : Interrupted refs 0 file ftag)
    (hall : SweepsAll refs gcthresh file) (hclear : (file.gctag.getD Gctag.none).eos = false)
    (hs : Sweeping (finishListed refs 0 file) gcthresh walker) (heos : walker.fileEos = true) :
    ∃ done, executeChain refs walker.gcops = some done ∧ ∀ j, done.file j = none := by
  obtain ⟨done, hexec, hdone⟩ := hs.execute h.file_eq
  obtain ⟨cur, hcur, hcurtag, hgap, hiff⟩ := hs.located.fileEos_iff h.walkable
  have hends := hiff.2 heos
  have hpos : walker.fileno ≠ 0 := by
    intro hzero
    rw [hzero, h.file_p] at hcur
    obtain rfl := Option.some.inj hcur
    have hft := Option.some.inj (h.ftag_some.symm.trans hcurtag)
    subst hft
    rcases hends with hend | hunfin | hgceos
    · rw [h.continues.1] at hend; cases hend
    · rw [h.continues.2] at hunfin; cases hunfin
    · rw [hclear] at hgceos; cases hgceos
  obtain ⟨hpast, hcur'⟩ := outside_listed hcur
  obtain ⟨-, hlast⟩ := hall _ cur (by omega) hcur'
  have hne := hlast _ hcurtag hends
  refine ⟨done, hexec, fun j => ?_⟩
  rw [hdone]
  split
  · rfl
  · have hnone := hs.located.behind_end h.walkable heos (show walker.fileno < j by omega)
    rwa [Interrupted.file_behind refs file (by omega)] at hnone

include htarget

theorem Sweeping.visits (hgc : gcthresh ≠ 0) (h : Interrupted refs 0 file ftag)
    (hs : Sweeping (finishListed refs 0 file) gcthresh walker) (heos : walker.fileEos = false) :
    ∃ walker' gcops rbldops, VisitStep objtarget refs walker walker' gcops rbldops ∧
      walker.iterateStep objtarget refs = afterVisit (some (walker', gcops, rbldops)) := by
  obtain ⟨cur, hcur, hcurtag, hgap, hiff⟩ := hs.located.fileEos_iff h.walkable
  obtain ⟨next, hnext⟩ := h.walkable.continued hcur hcurtag
    (by rw [hiff, heos]; exact Bool.false_ne_true)
  rw [hgap] at hnext
  obtain ⟨nexttag, hntag⟩ := h.walkable.tagged hnext
  have hno := h.walkable.fileno_eq hnext hntag
  rw [h.next_eq hs.located] at hnext
  simp only [fileEos, Bool.or_eq_false_iff, Bool.and_eq_false_imp, decide_eq_true_eq] at heos
  have hcont : walker.Continues := ⟨heos.1.1, heos.1.2⟩
  have hrec := recoverInprog_of_complete hs.complete
  have hload : (walker.loadFile next true).ftag = nexttag := by simp [loadFile, hntag]
  have hth : walker.gcthresh ≠ 0 := by rw [hs.gcthresh_eq]; exact hgc
  obtain ⟨base, hbase, -, -, hprev, -, hne⟩ := hs.pend
  have hpend : (walker.loadFile next true).pending = some base := hbase
  obtain ⟨op, hop, -, -, hcnt, hprev'⟩ := transitionPending_keeps walker.gctag.delzero hpend
  have hvisits : ((walker.loadFile next true).visitFile objtarget walker.gctag.delzero
      (1 + walker.gctag.refcnt)).isSome := by
    refine visitFile_isSome htarget hth (by rw [hload]; exact hno) fun _ walker₁ hcur₁ => ?_
    have hidx : walker₁.activeindex = 0 := by
      rw [← hs.index]
      simpa [cursor, loadFile] using congrArg Streamwalker.activeindex hcur₁
    rw [hop, Option.getD_some, addReference, if_pos (by omega), if_neg (by omega)]
    exact ⟨_, rfl⟩
  obtain ⟨⟨walker', gcops, rbldops⟩, hvisit⟩ := Option.isSome_iff_exists.1 hvisits
  have hnot : ¬ (walker.gctag.refcnt ≠ 0 ∧ walker.gctag.eos = true) := by
    rintro ⟨hcnt, hge⟩
    have := heos.2 hcnt
    rw [hge] at this
    cases this
  exact ⟨walker', gcops, rbldops, ⟨hcont, walker, next, nexttag, hrec, hnot, hnext, hntag, hvisit⟩,
    iterateStep_visit hth hcont hrec hnot hnext hntag hvisit⟩

/-- A sweep over eligible files runs to the end, and leaves nothing. -/
theorem Sweeping.completes (hgc : gcthresh ≠ 0) (h : Interrupted refs 0 file ftag)
    (hall : SweepsAll refs gcthresh file) (hclear : (file.gctag.getD Gctag.none).eos = false) (n : Nat)
    (hs : Sweeping (finishListed refs 0 file) gcthresh walker) (hn : refs.length ≤ walker.fileno + n) :
    ∃ last done, Completes objtarget refs walker refs last done ∧ ∀ j, done.file j = none := by
  induction n generalizing walker with
  | zero =>
    obtain ⟨cur, hcur, -⟩ := hs.located.file
    have := Refs.file_lt (outside_listed hcur).2
    omega
  | succ n ih =>
    cases heos : walker.fileEos with
    | true =>
      obtain ⟨done, hexec, hdone⟩ := hs.swept_all h hall hclear heos
      obtain ⟨op, hop, -⟩ := hs.pend
      have hops : walker.gcops ≠ [] := by
        intro hnil
        rw [Streamwalker.pending, hnil] at hop
        cases hop
      exact ⟨_, done, completes_of_fileEos heos hs.complete hops hexec, hdone⟩
    | false =>
      obtain ⟨walker', gcops, rbldops, hstep, hiter⟩ := hs.visits htarget hgc h heos
      obtain ⟨-, -, hno, -⟩ := hstep.visited (hs.gcthresh_eq ▸ hgc)
      rcases hs.visit hgc h.walkable h.complete_behind (h.visitStep hs.located hstep) with
        ⟨hs', rfl⟩ | ⟨-, -, hno', -, ⟨live, hlive, hnot⟩, -⟩
      · obtain ⟨last, done, hrun, hdone⟩ := ih hs' (by omega)
        refine ⟨last, done, ?_, hdone⟩
        cases rbldops with
        | nil => exact .again hiter hrun
        | cons op rbldops => exact .dispatched hiter (executeChain_nil refs) hrun
      · -- there is no live file left
        obtain ⟨hpast, hlive'⟩ := outside_listed hlive
        rw [(hall _ live (by omega) hlive').1] at hnot
        cases hnot

omit htarget in
theorem Sole.recovers (hgc : gcthresh ≠ 0) (h : Interrupted refs 0 file ftag)
    (hth : walker.gcthresh = gcthresh) (hsole : Sole (finishListed refs 0 file) gcthresh walker)
    (hclean : ∀ op, walker.pending = some op → op.errval = 0) :
    ∃ walker₁ op, walker.Continues ∧ walker.recoverInprog = some walker₁ ∧
      walker₁.gctag.inprog = false ∧ walker₁.fileEos = true ∧ OneDelref walker₁.gcops ∧
      walker₁.pending = some op ∧ op.errval = 0 ∧ op.ftag.fileno = 0 ∧
      op.count = 1 + gapLength file ∧ op.delrefinf.prevActiveIndex = 0 := by
  obtain ⟨zero, hzero, htag, hgct, -⟩ := hsole.file
  obtain rfl := Option.some.inj (h.file_p.symm.trans hzero)
  have hft : walker.ftag = ftag := Option.some.inj (htag.symm.trans h.ftag_some)
  obtain ⟨op, hop, hlo, hc, hprev⟩ := hsole.pend
  have hcont : walker.Continues := by rw [Continues, hft]; exact h.continues
  have hrecovering :
      (walker.gctag.refcnt ≠ 0 && walker.gctag.inprog && walker.gcthresh ≠ 0) = true := by
    have hne : (file.gctag.getD Gctag.none).refcnt ≠ 0 := h.listed
    rw [hth, hgct, h.inprog]
    simp [hne, hgc]
  let op₁ := { op with count := op.count + walker.gctag.refcnt }.setDelref
    { op.delrefinf with eos := op.delrefinf.eos || walker.gctag.eos }
  have hadd : walker.addInprog op = some op₁ := by
    rw [addInprog, if_pos (by omega), if_neg (by rw [hlo, hc, hsole.fileno_eq]; simp)]
  let report := { walker.report with delfiles := walker.report.delfiles + walker.gctag.refcnt }
  have heff : OpsEffect walker.gcops (putDelref walker.gcops op₁) (some op₁) fun _ => False :=
    .put walker.gcops rfl
  refine ⟨{ walker with
      gcops := putDelref walker.gcops op₁
      report := report
      gctag := { walker.gctag with inprog := false } }, op₁, hcont, ?_, rfl, hsole.eos,
    heff.one hsole.one, heff.pending_eq, hclean op hop, hlo, ?_, hprev⟩
  · rw [recoverInprog, if_pos hrecovering]
    dsimp only
    rw [updateDelref_eq, hop, Option.getD_some, hadd]
    rfl
  · have hgap : walker.gctag.refcnt = gapLength file := by rw [hgct]; rfl
    change op.count + walker.gctag.refcnt = _
    omega

omit htarget in
theorem Sole.completes (hgc : gcthresh ≠ 0) (h : Interrupted refs 0 file ftag)
    (heos : (file.gctag.getD Gctag.none).eos = true) (hth : walker.gcthresh = gcthresh)
    (hsole : Sole (finishListed refs 0 file) gcthresh walker)
    (hclean : ∀ op, walker.pending = some op → op.errval = 0) :
    ∃ last done, Completes objtarget refs walker refs last done ∧ ∀ j, done.file j = none := by
  obtain ⟨walker₁, op, hcont, hrec, hprog, heos₁, hone, hop, herr, hlo, hc, hprev⟩ :=
    hsole.recovers hgc h hth hclean
  obtain ⟨done, hexec, hdel⟩ := executeChain_some hone hop herr (hprev.symm ▸ h.file_eq)
  have hops : walker₁.gcops ≠ [] := by
    intro hnil
    rw [Streamwalker.pending, hnil] at hop
    cases hop
  refine ⟨_, done, Completes.of_recovered hcont hrec hprog
    (completes_of_fileEos heos₁ hprog hops hexec), fun j => ?_⟩
  have hcov : op.CoversRef j ↔ j ≤ gapLength file := by
    simp only [Opinfo.CoversRef, delrefOp_type hop, true_and, hlo]
    omega
  rw [hdel j, hprev]
  simp only [hcov]
  split
  · rfl
  · rw [if_neg (by omega), ← Interrupted.file_behind refs file (by omega)]
    exact h.walkable.last h.file_p h.ftag_some (.inr (.inr heos)) (by omega)

theorem Recoverable.completes {rebuildloc : Option NeLocation} (hgc : thresh.gcthreshold ≠ 0)
    (h : Interrupted refs p file ftag) (hr : Recoverable refs thresh.gcthreshold p file ftag)
    (hopen : processOpenstreamwalker objtarget refs thresh rebuildloc = .opened walker) :
    ∃ last done, Completes objtarget refs walker refs last done ∧ ∀ j, done.file j = none := by
  obtain ⟨rfl, helig, hrest⟩ := hr
  obtain ⟨hat, hno, hidx, hst⟩ := h.opened hgc hopen
  cases heos : (file.gctag.getD Gctag.none).eos with
  | true =>
    have hsole : Sole (finishListed refs 0 file) thresh.gcthreshold walker := by
      refine hst.resolve_left fun ⟨_, hnot⟩ => hnot ?_
      exact ⟨file, ftag, h.file_p, h.ftag_some, .inr (.inr heos), helig⟩
    have hpend := opened_pending hgc h.file_eq h.ftag_some hopen
    rw [if_pos helig] at hpend
    exact hsole.completes hgc h heos hat.gcthresh_eq fun op hop =>
      openPending_errval rfl (hpend.symm.trans hop)
  | false =>
    obtain ⟨hobjs, hall⟩ := hrest.resolve_left (by rw [heos]; exact Bool.false_ne_true)
    have hw := h.walkInv_zero hgc hopen heos
    obtain ⟨-, hnone⟩ := (h.pending_zero hgc hopen helig heos).resolve_right
      fun hnot => hnot.1 hobjs
    obtain ⟨walker₁, hrec, hprog, hs⟩ := h.sweeping hgc hw hno hidx hnone
    obtain ⟨-, -, hcont⟩ := h.at_p hw hno
    obtain ⟨last, done, hrun, hdone⟩ :=
      hs.completes htarget hgc h hall heos refs.length (by omega)
    exact ⟨last, done, Completes.of_recovered hcont hrec hprog hrun, hdone⟩

theorem Recoverable.recovers {rebuildloc : Option NeLocation} (hgc : thresh.gcthreshold ≠ 0)
    (hloc : thresh.rebuildthreshold = 0 ∨ rebuildloc ≠ none) (h : Interrupted refs p file ftag)
    (hr : Recoverable refs thresh.gcthreshold p file ftag) :
    Recovers objtarget refs thresh rebuildloc p file := by
  obtain ⟨zero, ztag, hzero, hztag⟩ : ∃ zero ztag, refs.file 0 = some zero ∧
      zero.ftag = some ztag := ⟨file, ftag, hr.zero ▸ h.file_eq, h.ftag_some⟩
  obtain ⟨walker, hwalker⟩ := Option.isSome_iff_exists.1
    (openFile_isSome htarget (Streamwalker.initial thresh rebuildloc zero ztag))
  have hopen : processOpenstreamwalker objtarget refs thresh rebuildloc = .opened walker := by
    have hpass : ¬ (thresh.rebuildthreshold ≠ 0 ∧ rebuildloc = none) := by
      rintro ⟨hne, hnone⟩
      exact hloc.elim hne fun hsome => hsome hnone
    rw [processOpenstreamwalker, if_neg hpass, hzero]
    simp only [hztag, hwalker]
  obtain ⟨last, done, hrun, hgone⟩ := hr.completes htarget hgc h hopen
  obtain ⟨hat, -⟩ := h.opened hgc hopen
  obtain ⟨n, hstat, hexec⟩ := hrun.calls hgc hat
  refine ⟨n + 1, last, done, ?_, ?_, fun j _ _ => hgone j, ?_, fun _ => ⟨hr.eligible, fun _ => hgone⟩⟩
  · rw [walkStream, hopen]
    exact hstat
  · rw [walkStream, hopen]
    exact hexec
  · intro file' hfile'
    rw [hgone p] at hfile'
    cases hfile'

end Progress

/-- The tag of an interrupted deletion of one reference. -/
def sampleInprog (eos : Bool) : Gctag := { refcnt := 1, eos := eos, delzero := false, inprog := true }

theorem interruptedStream_interrupted :
    Interrupted interruptedStream 1 (sampleFile 1 0 true false (some (sampleInprog false)))
      (sampleFtag 1 0 false) := by
  refine ⟨rfl, rfl, by decide, by decide, rfl, walkable_of_check (by decide) (by decide), ?_⟩
  intro j file' hfile' hj
  have hlt := Refs.file_lt (outside_listed hfile').2
  revert file' hj
  have hall : ∀ j < 4, ∀ file' ∈ (finishListed interruptedStream 1
      (sampleFile 1 0 true false (some (sampleInprog false)))).file j, j ≠ 1 →
      (file'.gctag.getD Gctag.none).inprog = false := by decide
  exact fun {file'} hfile' hj => hall j hlt file' hfile' hj

/-- The recovery takes along the linked file that carries the tag. -/
theorem interruptedStream_not_recovers :
    Interrupted interruptedStream 1 (sampleFile 1 0 true false (some (sampleInprog false)))
        (sampleFtag 1 0 false) ∧
      ¬ Recovers (fun _ => some { pod := 0, cap := 0, scatter := 0 }) interruptedStream sampleThresh
        none 1 (sampleFile 1 0 true false (some (sampleInprog false))) :=
  ⟨interruptedStream_interrupted, fun h => absurd
    (h.recoverable (by decide) interruptedStream_interrupted).zero (by decide)⟩

/-- A walk over a stream whose GC was interrupted recovers, exactly when the in-progress tag is on an
eligible file zero and the stream goes as a whole. -/
theorem recovers_iff (hgc : thresh.gcthreshold ≠ 0) (hloc : thresh.rebuildthreshold = 0 ∨ rebuildloc ≠ none)
    (htarget : ∀ ftag, (objtarget ftag).isSome) (h : Interrupted refs p file ftag) :
    Recovers objtarget refs thresh rebuildloc p file ↔
      Recoverable refs thresh.gcthreshold p file ftag :=
  ⟨Recovers.recoverable hgc h, Recoverable.recovers htarget hgc hloc h⟩

def soleStream : Refs :=
  [some (sampleFile 0 0 false false (some (sampleInprog true))),
   some (sampleFile 1 0 false true none)]

/-- On it a walk recovers. -/
theorem soleStream_recovers :
    Recovers (fun _ => some { pod := 0, cap := 0, scatter := 0 }) soleStream sampleThresh none 0
      (sampleFile 0 0 false false (some (sampleInprog true))) := by
  have hinterrupted : Interrupted soleStream 0
      (sampleFile 0 0 false false (some (sampleInprog true))) (sampleFtag 0 0 false) := by
    refine ⟨rfl, rfl, by decide, by decide, rfl, walkable_of_check (by decide) (by decide), ?_⟩
    intro j file' hfile' hj
    have hlt := Refs.file_lt (outside_listed hfile').2
    obtain rfl : j = 1 := by
      have : j < 2 := hlt
      omega
    cases hfile'
  exact (recovers_iff (by decide) (.inl rfl) (fun _ => rfl) hinterrupted).2
    ⟨rfl, by decide, .inl rfl⟩

end Marfs.Gc
