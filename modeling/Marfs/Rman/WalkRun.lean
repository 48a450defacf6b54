import Marfs.Rman.WalkerSpec

/-!
# Runs of the walker

One turn of the walking loop under a GC threshold either visits the next reference (`VisitStep`) or
leaves the loop (`LeaveStep`); `iterateStep_cases` says so once for every proof about walks.  An
invariant that every turn keeps then holds in every state a walk reaches, and every chain the walk
dispatches is one the invariant vouches for (`iterateCalls_safe`).
-/

namespace Marfs.Rman

open Datastream Tagging

variable {objtarget : Ftag → Option NeLocation} {refs : Refs}

namespace Streamwalker

def Continues (walker : Streamwalker) : Prop :=
  walker.ftag.endofstream = false ∧ walker.ftag.unfinalized = false

def VisitStep (objtarget : Ftag → Option NeLocation) (refs : Refs)
    (walker walker' : Streamwalker) (gcops rbldops : List Opinfo) : Prop :=
  walker.Continues ∧ ∃ (walker₁ : Streamwalker) (file : RefFile) (ftag : Ftag),
    walker.recoverInprog = some walker₁ ∧
    ¬ (walker₁.gctag.refcnt ≠ 0 ∧ walker₁.gctag.eos = true) ∧
    refs.file (walker₁.fileno + (1 + walker₁.gctag.refcnt)) = some file ∧ file.ftag = some ftag ∧
    (walker₁.loadFile file true).visitFile objtarget walker₁.gctag.delzero
      (1 + walker₁.gctag.refcnt) = some (walker', gcops, rbldops)

/-- The ways to leave the loop: the stream ended; a GCTAG says it ends here; the next reference has
no FTAG; the next reference is missing after a finalized file. -/
inductive LeaveStep (refs : Refs) (walker walker' : Streamwalker) : Prop
  | ended (h : ¬ walker.Continues) (h' : walker' = walker)
  | gctagEos (hcont : walker.Continues) (hrec : walker.recoverInprog = some walker')
      (heos : walker'.gctag.refcnt ≠ 0 ∧ walker'.gctag.eos = true)
  | untagged (hcont : walker.Continues) (walker₁ walker₂ : Streamwalker) (file : RefFile)
      (hrec : walker.recoverInprog = some walker₁)
      (hfile : refs.file (walker₁.fileno + (1 + walker₁.gctag.refcnt)) = some file)
      (huntagged : file.ftag = none)
      (hcur : walker₂.cursor = (walker₁.loadFile file true).cursor)
      (hops : walker₂.gcops = walker₁.gcops)
      (htrail : walker₂.trailingFile
        (walker₁.ftag.atFile (walker₁.fileno + (1 + walker₁.gctag.refcnt))) = some walker')
      (heos : ¬ (walker₁.gctag.refcnt ≠ 0 ∧ walker₁.gctag.eos = true))
  | missing (hcont : walker.Continues) (walker₁ : Streamwalker)
      (hrec : walker.recoverInprog = some walker₁)
      (hpos : walker₁.fileno ≠ 0)
      (hcur : walker'.cursor = { walker₁.cursor with
        ftag := { walker₁.ftag with endofstream := true } })
      (heff : OpsEffect walker₁.gcops walker'.gcops (walker₁.pending.map noteEos) fun _ => False)
      (heos : ¬ (walker₁.gctag.refcnt ≠ 0 ∧ walker₁.gctag.eos = true))
      (hmissing : refs.file (walker₁.fileno + (1 + walker₁.gctag.refcnt)) = none)

theorem recoverInprog_gctag {walker walker' : Streamwalker} (h : walker.recoverInprog = some walker') :
    walker'.gcthresh = walker.gcthresh ∧ walker'.fileno = walker.fileno ∧
      walker'.ftag = walker.ftag ∧ walker'.gctag.refcnt = walker.gctag.refcnt := by
  rcases recoverInprog_some h with ⟨-, rfl⟩ | ⟨-, op, -, hcur, -⟩
  · exact ⟨rfl, rfl, rfl, rfl⟩
  · have hg : walker'.gctag = { walker.gctag with inprog := false } := by
      simpa [cursor] using congrArg gctag hcur
    exact ⟨by simpa [cursor] using congrArg gcthresh hcur,
      by simpa [cursor] using congrArg fileno hcur, by simpa [cursor] using congrArg ftag hcur,
      by rw [hg]⟩

theorem assumeEos_some {walker walker' : Streamwalker} {tmptag : Ftag} (hgc : walker.gcthresh ≠ 0)
    (h : walker.assumeEos tmptag = some walker') :
    walker'.cursor = walker.cursor ∧
      OpsEffect walker.gcops walker'.gcops (walker.pending.map noteEos) fun _ => False := by
  have hsrch : (searchoperations walker.gcops .deleteRef tmptag).isSome =
      walker.pending.isSome := by
    rw [Bool.eq_iff_iff]
    simp [searchoperations, reusable_deleteRef, pending, delrefOp]
  simp only [assumeEos, hgc, hsrch, ne_eq, not_false_eq_true, decide_true, Bool.true_and] at h
  cases hp : walker.pending with
  | none =>
    rw [hp] at h
    obtain rfl : walker = walker' := by simpa using h
    exact ⟨rfl, by rw [Option.map_none, ← hp]; exact .refl _⟩
  | some op =>
    rw [hp, Option.isSome_some, if_pos rfl, updateDelref_eq, hp] at h
    obtain rfl := Option.some.inj h
    exact ⟨rfl, .put _ rfl⟩

/-- What one turn under a GC threshold does. -/
theorem iterateStep_cases {walker : Streamwalker} (hgc : walker.gcthresh ≠ 0)
    (hpos : walker.fileno = 0 ∨ walker.ftag.fileno = walker.fileno) :
    match walker.iterateStep objtarget refs with
    | .failed => True
    | .left walker' => LeaveStep refs walker walker'
    | .again walker' => VisitStep objtarget refs walker walker' [] []
    | .dispatched walker' gcops rbldops =>
        VisitStep objtarget refs walker walker' gcops rbldops := by
  unfold iterateStep
  by_cases hend : (walker.ftag.endofstream || walker.ftag.unfinalized) = true
  · rw [if_pos hend]
    exact .ended (fun h => by simp [h.1, h.2] at hend) rfl
  rw [if_neg hend]
  have hcont : walker.Continues := by simpa [Continues] using hend
  cases hrec : walker.recoverInprog with
  | none => trivial
  | some walker₁ =>
    obtain ⟨hth, hno, hft, -⟩ := recoverInprog_gctag hrec
    have hpull := pullxattrs_of_gcthresh (show walker₁.gcthresh ≠ 0 by rwa [hth])
    dsimp only
    by_cases heos : (walker₁.gctag.refcnt ≠ 0 && walker₁.gctag.eos) = true
    · rw [if_pos heos]
      exact .gctagEos hcont hrec (by simpa using heos)
    rw [if_neg heos]
    cases hfile : refs.file (walker₁.fileno + (1 + walker₁.gctag.refcnt)) with
    | none =>
      dsimp only
      unfold missingFile
      by_cases h0 : walker₁.fileno = 0
      · rw [if_pos h0]; trivial
      rw [if_neg h0, if_pos (by rw [hno, hft]; rw [hno] at h0; exact (hpos.resolve_left h0).symm)]
      by_cases hfin : walker₁.ftag.state.data = .fin
      · rw [if_pos hfin]
        cases hass : walker₁.assumeEos
            (walker₁.ftag.atFile (walker₁.fileno + (1 + walker₁.gctag.refcnt))) with
        | none => trivial
        | some walker₂ =>
          obtain ⟨hcur, heff⟩ := assumeEos_some (by rwa [hth]) hass
          refine .missing hcont walker₁ hrec h0 ?_ heff (by simpa using heos) hfile
          have : ({ walker₂ with ftag := { walker₂.ftag with endofstream := true } } :
              Streamwalker).cursor = { walker₂.cursor with
                ftag := { walker₂.ftag with endofstream := true } } := rfl
          rw [this, hcur, cursor_ftag hcur]
      · rw [if_neg hfin]; trivial
    | some file =>
      dsimp only
      have hpull' : (walker₁.loadFile file true).pullxattrs = true := hpull
      rw [hpull, hpull', Bool.true_and]
      cases htag : file.ftag with
      | none =>
        rw [Option.isNone_none, if_pos rfl]
        unfold untaggedFile
        generalize hw₂ : ({ walker₁.loadFile file true with report := _ } : Streamwalker) = walker₂
        dsimp only
        cases htrail : walker₂.trailingFile
            (walker₁.ftag.atFile (walker₁.fileno + (1 + walker₁.gctag.refcnt))) with
        | none => trivial
        | some walker₃ =>
          exact .untagged hcont walker₁ walker₂ file hrec hfile htag (by rw [← hw₂]; rfl)
            (by rw [← hw₂]; rfl) htrail (by simpa using heos)
      | some ftag =>
        rw [Option.isNone_some, if_neg Bool.false_ne_true]
        cases hvisit : (walker₁.loadFile file true).visitFile objtarget walker₁.gctag.delzero
            (1 + walker₁.gctag.refcnt) with
        | none => trivial
        | some result =>
          obtain ⟨walker', gcops, rbldops⟩ := result
          have hstep : VisitStep objtarget refs walker walker' gcops rbldops :=
            ⟨hcont, walker₁, file, ftag, hrec, by simpa using heos, hfile, htag, hvisit⟩
          rcases gcops with _ | ⟨op, gcops⟩ <;> rcases rbldops with _ | ⟨op', rbldops⟩ <;>
            exact hstep

theorem iterateStep_visit {walker walker₁ : Streamwalker} {file : RefFile} {ftag : Ftag}
    {visit : Streamwalker × List Opinfo × List Opinfo} (hgc : walker.gcthresh ≠ 0)
    (hcont : walker.Continues) (hrec : walker.recoverInprog = some walker₁)
    (heos : ¬ (walker₁.gctag.refcnt ≠ 0 ∧ walker₁.gctag.eos = true))
    (hfile : refs.file (walker₁.fileno + (1 + walker₁.gctag.refcnt)) = some file)
    (htag : file.ftag = some ftag)
    (hvisit : (walker₁.loadFile file true).visitFile objtarget walker₁.gctag.delzero
      (1 + walker₁.gctag.refcnt) = some visit) :
    walker.iterateStep objtarget refs = afterVisit (some visit) := by
  obtain ⟨hth, -⟩ := recoverInprog_gctag hrec
  have hpull := pullxattrs_of_gcthresh (show walker₁.gcthresh ≠ 0 by rwa [hth])
  have hpull' : (walker₁.loadFile file true).pullxattrs = true := hpull
  have heos' : (walker₁.gctag.refcnt ≠ 0 && walker₁.gctag.eos) = false := by simpa using heos
  simp only [iterateStep, hcont.1, hcont.2, Bool.or_self, Bool.false_eq_true, if_false, hrec,
    heos', hfile, hpull, hpull', htag, Option.isNone_some, Bool.and_false, hvisit]

theorem iterateStep_gctagEos {walker walker₁ : Streamwalker} (hcont : walker.Continues)
    (hrec : walker.recoverInprog = some walker₁)
    (heos : walker₁.gctag.refcnt ≠ 0 ∧ walker₁.gctag.eos = true) :
    walker.iterateStep objtarget refs = .left walker₁ := by
  simp only [iterateStep, hcont.1, hcont.2, Bool.or_self, Bool.false_eq_true, if_false, hrec,
    heos.2, ne_eq, heos.1, not_false_eq_true, decide_true, Bool.and_self, if_true]

end Streamwalker

/-! ## The turns of a call -/

/-- What holds of a walker at the end of the stream, and before a turn that stays within the call, holds
of a walker whose call returns `0`. -/
theorem iterateLoop_complete {motive : Streamwalker → Prop} {walker' : Streamwalker}
    (again : ∀ walker walker₁, walker.iterateStep objtarget refs = .again walker₁ →
      motive walker₁ → motive walker)
    (complete : ∀ walker, walker.iterateStep objtarget refs = .left walker' →
      walker'.gcops = [] ∧ walker'.rbldops = [] → motive walker) (fuel : Nat) {walker : Streamwalker}
    (h : iterateLoop objtarget refs fuel walker = .complete walker') : motive walker := by
  induction fuel generalizing walker with
  | zero => cases h
  | succ fuel ih =>
    unfold iterateLoop at h
    cases hstep : walker.iterateStep objtarget refs with
    | failed => rw [hstep] at h; cases h
    | dispatched walker₁ gcops rbldops => rw [hstep] at h; cases h
    | again walker₁ =>
      rw [hstep] at h
      exact again walker walker₁ hstep (ih h)
    | left walker₁ =>
      rw [hstep] at h
      simp only [Streamwalker.dispatchRemaining] at h
      split at h
      · rename_i hops
        obtain rfl := IterateResult.complete.inj h
        exact complete walker hstep hops
      · cases h

theorem iterateLoop_dispatched {motive : Streamwalker → Prop} {walker₁ : Streamwalker}
    {gcops rbldops : List Opinfo}
    (again : ∀ walker walker₁, walker.iterateStep objtarget refs = .again walker₁ →
      motive walker₁ → motive walker)
    (dispatched : ∀ walker, walker.iterateStep objtarget refs = .dispatched walker₁ gcops rbldops →
      motive walker)
    (left : ∀ walker walker₂, walker.iterateStep objtarget refs = .left walker₂ →
      ¬ (walker₂.gcops = [] ∧ walker₂.rbldops = []) →
      { walker₂ with gcops := [], rbldops := [] } = walker₁ → walker₂.gcops = gcops →
      walker₂.rbldops = rbldops → motive walker)
    (fuel : Nat) {walker : Streamwalker}
    (h : iterateLoop objtarget refs fuel walker = .dispatched walker₁ gcops rbldops) :
    motive walker := by
  induction fuel generalizing walker with
  | zero => cases h
  | succ fuel ih =>
    unfold iterateLoop at h
    cases hstep : walker.iterateStep objtarget refs with
    | failed => rw [hstep] at h; cases h
    | dispatched walker₂ gcops₂ rbldops₂ =>
      rw [hstep] at h
      cases h
      exact dispatched walker hstep
    | again walker₂ =>
      rw [hstep] at h
      exact again walker walker₂ hstep (ih h)
    | left walker₂ =>
      rw [hstep] at h
      simp only [Streamwalker.dispatchRemaining] at h
      split at h
      · cases h
      · rename_i hops
        cases h
        exact left walker walker₂ hstep hops rfl rfl rfl

/-! ## Invariants of whole walks -/

/-- A predicate on walkers that every turn keeps, together with what it says of the GC chains a
turn dispatches. -/
structure TurnInvariant (objtarget : Ftag → Option NeLocation) (refs : Refs)
    (Inv : Streamwalker → Prop) (Safe : List Opinfo → Prop) : Prop where
  again : ∀ {walker walker'}, Inv walker →
    walker.iterateStep objtarget refs = .again walker' → Inv walker'
  dispatched : ∀ {walker walker' gcops rbldops}, Inv walker →
    walker.iterateStep objtarget refs = .dispatched walker' gcops rbldops →
    Inv walker' ∧ Safe gcops
  left : ∀ {walker walker'}, Inv walker → walker.iterateStep objtarget refs = .left walker' →
    Inv { walker' with gcops := [], rbldops := [] } ∧ Safe walker'.gcops

section Invariant

variable {Inv : Streamwalker → Prop} {Safe : List Opinfo → Prop}

theorem iterateLoop_safe (hinv : TurnInvariant objtarget refs Inv Safe) (fuel : Nat)
    {walker walker' : Streamwalker} {gcops rbldops : List Opinfo} (h : Inv walker)
    (hloop : iterateLoop objtarget refs fuel walker = .dispatched walker' gcops rbldops) :
    Inv walker' ∧ Safe gcops := by
  refine iterateLoop_dispatched (motive := fun walker => Inv walker → Inv walker' ∧ Safe gcops)
    (fun walker walker₁ hstep ih h => ?_) (fun walker hstep h => ?_)
    (fun walker walker₂ hstep _ hcleared hgcops _ h => ?_) fuel hloop h
  · exact ih (hinv.again h hstep)
  · exact hinv.dispatched h hstep
  · subst hcleared hgcops
    exact hinv.left h hstep

theorem iterateCalls_safe (hinv : TurnInvariant objtarget refs Inv Safe) (n : Nat) {walker : Streamwalker}
    (h : Inv walker) : ∀ chain ∈ (iterateCalls objtarget refs n walker).gcops, Safe chain := by
  induction n generalizing walker with
  | zero => simp [iterateCalls]
  | succ n ih =>
    unfold iterateCalls
    cases hcall : processIteratestreamwalker objtarget refs walker with
    | outOfFuel => simp
    | failed => simp
    | complete walker' => simp
    | dispatched walker' gcops rbldops =>
      obtain ⟨h', hsafe⟩ := iterateLoop_safe hinv _ h hcall
      intro chain hchain
      rcases List.mem_cons.1 hchain with rfl | hin
      · exact hsafe
      · exact ih h' chain hin

end Invariant

/-- The states a caller's walk reaches at the head of the loop. -/
inductive Reaches (objtarget : Ftag → Option NeLocation) (refs : Refs) (walker₀ : Streamwalker) :
    Streamwalker → Prop
  | start : Reaches objtarget refs walker₀ walker₀
  | again {walker walker'} (h : Reaches objtarget refs walker₀ walker)
      (hstep : walker.iterateStep objtarget refs = .again walker') :
      Reaches objtarget refs walker₀ walker'
  | dispatched {walker walker' gcops rbldops} (h : Reaches objtarget refs walker₀ walker)
      (hstep : walker.iterateStep objtarget refs = .dispatched walker' gcops rbldops) :
      Reaches objtarget refs walker₀ walker'
  | left {walker walker'} (h : Reaches objtarget refs walker₀ walker)
      (hstep : walker.iterateStep objtarget refs = .left walker') :
      Reaches objtarget refs walker₀ { walker' with gcops := [], rbldops := [] }

theorem Reaches.invariant {Inv : Streamwalker → Prop} {Safe : List Opinfo → Prop}
    (hinv : TurnInvariant objtarget refs Inv Safe) {walker₀ walker : Streamwalker}
    (h₀ : Inv walker₀) (h : Reaches objtarget refs walker₀ walker) : Inv walker := by
  induction h with
  | start => exact h₀
  | again _ hstep ih => exact hinv.again ih hstep
  | dispatched _ hstep ih => exact (hinv.dispatched ih hstep).1
  | left _ hstep ih => exact (hinv.left ih hstep).1

/-! ## The position of a GC walk -/

namespace Streamwalker

/-- What every state of a GC walk has in common: the threshold, and an FTAG of the current file. -/
structure AtFile (gcthresh : Int) (walker : Streamwalker) : Prop where
  gcthresh_eq : walker.gcthresh = gcthresh
  position : walker.fileno = 0 ∨ walker.ftag.fileno = walker.fileno

variable {gcthresh : Int} {walker walker' : Streamwalker}

theorem VisitStep.visited {gcops rbldops : List Opinfo} (hgc : walker.gcthresh ≠ 0)
    (h : VisitStep objtarget refs walker walker' gcops rbldops) :
    walker'.gcthresh = walker.gcthresh ∧ walker'.ftag.fileno = walker'.fileno ∧
      walker'.fileno = walker.fileno + (1 + walker.gctag.refcnt) ∧
      ∃ file, refs.file walker'.fileno = some file ∧ file.ftag = some walker'.ftag ∧
        walker'.gctag = file.gctag.getD Gctag.none ∧ walker'.stval = file.stat := by
  obtain ⟨-, walker₁, file, ftag, hrec, -, hfile, htag, hvisit⟩ := h
  obtain ⟨hth, hno, -, hcnt⟩ := recoverInprog_gctag hrec
  have hload : (walker₁.loadFile file true).ftag = ftag := by simp [loadFile, htag]
  have hth₁ : (walker₁.loadFile file true).gcthresh = walker.gcthresh := hth
  have hv : (walker₁.loadFile file true).ftag.fileno = walker₁.fileno + (1 + walker₁.gctag.refcnt) ∧
      Visited (walker₁.loadFile file true) walker' := by
    cases helig : (walker₁.loadFile file true).stval.eligible
        (walker₁.loadFile file true).gcthresh with
    | false =>
      obtain ⟨hno, hv, -⟩ := visitFile_live (by rwa [hth₁]) helig hvisit
      exact ⟨hno, hv⟩
    | true =>
      obtain ⟨hno, hv, -⟩ := visitFile_eligible (by rwa [hth₁]) helig hvisit
      exact ⟨hno, hv⟩
  obtain ⟨hfno, hv⟩ := hv
  refine ⟨hv.gcthresh_eq.trans hth₁, by rw [hv.ftag_eq, hv.fileno_eq], ?_, file, ?_, ?_,
    hv.gctag_eq, hv.stval_eq⟩
  · rw [hv.fileno_eq, hfno, hno, hcnt]
  · rw [hv.fileno_eq, hfno, hfile]
  · rw [hv.ftag_eq, hload, htag]

theorem LeaveStep.position (h : LeaveStep refs walker walker') :
    walker'.gcthresh = walker.gcthresh ∧ walker'.fileno = walker.fileno ∧
      walker'.ftag.fileno = walker.ftag.fileno := by
  cases h with
  | ended _ heq => subst heq; exact ⟨rfl, rfl, rfl⟩
  | gctagEos _ hrec _ =>
    obtain ⟨hth, hno, hft, -⟩ := recoverInprog_gctag hrec
    exact ⟨hth, hno, by rw [hft]⟩
  | untagged _ walker₁ walker₂ file hrec _ huntag hcur _ htrail =>
    obtain ⟨hth, hno, hft, -⟩ := recoverInprog_gctag hrec
    have hcur' := (trailingFile_some htrail).1.trans hcur
    have hload : (walker₁.loadFile file true).ftag = walker₁.ftag := by
      simp [loadFile, huntag]
    exact ⟨(cursor_gcthresh hcur').trans hth, (cursor_fileno hcur').trans hno,
      by rw [cursor_ftag hcur', hload, hft]⟩
  | missing _ walker₁ hrec _ hcur _ =>
    obtain ⟨hth, hno, hft, -⟩ := recoverInprog_gctag hrec
    have hft' : walker'.ftag = { walker₁.ftag with endofstream := true } := by
      simpa [cursor] using congrArg Streamwalker.ftag hcur
    exact ⟨(by simpa [cursor] using congrArg Streamwalker.gcthresh hcur : _ = _).trans hth,
      (by simpa [cursor] using congrArg Streamwalker.fileno hcur : _ = _).trans hno,
      by rw [hft', hft]⟩

theorem AtFile.visit {gcops rbldops : List Opinfo} (hgc : gcthresh ≠ 0) (h : AtFile gcthresh walker)
    (hstep : VisitStep objtarget refs walker walker' gcops rbldops) : AtFile gcthresh walker' := by
  obtain ⟨hth, hno, -, -⟩ := hstep.visited (h.gcthresh_eq ▸ hgc)
  exact ⟨hth.trans h.gcthresh_eq, .inr hno⟩

theorem AtFile.leave (h : AtFile gcthresh walker) (hstep : LeaveStep refs walker walker') :
    AtFile gcthresh { walker' with gcops := [], rbldops := [] } := by
  obtain ⟨hth, hno, hft⟩ := hstep.position
  refine ⟨hth.trans h.gcthresh_eq, ?_⟩
  change walker'.fileno = 0 ∨ walker'.ftag.fileno = walker'.fileno
  rw [hno, hft]
  exact h.position

variable (objtarget refs) in
theorem AtFile.cases (hgc : gcthresh ≠ 0) (h : AtFile gcthresh walker) :
    match walker.iterateStep objtarget refs with
    | .failed => True
    | .left walker' => LeaveStep refs walker walker'
    | .again walker' => VisitStep objtarget refs walker walker' [] []
    | .dispatched walker' gcops rbldops =>
        VisitStep objtarget refs walker walker' gcops rbldops :=
  iterateStep_cases (h.gcthresh_eq ▸ hgc) h.position

end Streamwalker

/-- The proof obligations of an invariant over a GC walk from `walker₀`: it holds there, visits keep
it, it survives leaving the loop, and every chain that is dispatched is safe. -/
structure GcInvariant (objtarget : Ftag → Option NeLocation) (refs : Refs) (gcthresh : Int)
    (walker₀ : Streamwalker) (Inv : Streamwalker → Prop) (Safe : List Opinfo → Prop) : Prop where
  start : Inv walker₀
  visit : ∀ {walker walker' gcops rbldops}, Reaches objtarget refs walker₀ walker →
    walker.AtFile gcthresh → Inv walker →
    Streamwalker.VisitStep objtarget refs walker walker' gcops rbldops →
    Inv walker' ∧ Safe gcops
  leave : ∀ {walker walker'}, Reaches objtarget refs walker₀ walker →
    walker.AtFile gcthresh → Inv walker → Streamwalker.LeaveStep refs walker walker' →
    Inv { walker' with gcops := [], rbldops := [] } ∧ Safe walker'.gcops

namespace GcInvariant

variable {gcthresh : Int} {walker₀ : Streamwalker} {Inv : Streamwalker → Prop}
  {Safe : List Opinfo → Prop}

theorem turn (hgc : gcthresh ≠ 0) (h : GcInvariant objtarget refs gcthresh walker₀ Inv Safe) :
    TurnInvariant objtarget refs
      (fun walker => Reaches objtarget refs walker₀ walker ∧ walker.AtFile gcthresh ∧ Inv walker)
      Safe := by
  refine ⟨?_, ?_, ?_⟩
  · rintro walker walker' ⟨hreach, hat, hw⟩ hstep
    have hcases := hat.cases objtarget refs hgc
    rw [hstep] at hcases
    exact ⟨hreach.again hstep, hat.visit hgc hcases, (h.visit hreach hat hw hcases).1⟩
  · rintro walker walker' gcops rbldops ⟨hreach, hat, hw⟩ hstep
    have hcases := hat.cases objtarget refs hgc
    rw [hstep] at hcases
    obtain ⟨hw', hsafe⟩ := h.visit hreach hat hw hcases
    exact ⟨⟨hreach.dispatched hstep, hat.visit hgc hcases, hw'⟩, hsafe⟩
  · rintro walker walker' ⟨hreach, hat, hw⟩ hstep
    have hcases := hat.cases objtarget refs hgc
    rw [hstep] at hcases
    obtain ⟨hw', hsafe⟩ := h.leave hreach hat hw hcases
    exact ⟨⟨hreach.left hstep, hat.leave hcases, hw'⟩, hsafe⟩

theorem reached (hgc : gcthresh ≠ 0)
    (h : GcInvariant objtarget refs gcthresh walker₀ Inv Safe) (hat : walker₀.AtFile gcthresh)
    {walker : Streamwalker} (hreach : Reaches objtarget refs walker₀ walker) : Inv walker :=
  (hreach.invariant (h.turn hgc) ⟨.start, hat, h.start⟩).2.2

end GcInvariant

theorem opened_some {thresh : Thresholds} {rebuildloc : Option NeLocation} {walker : Streamwalker}
    (hgc : thresh.gcthreshold ≠ 0)
    (h : processOpenstreamwalker objtarget refs thresh rebuildloc = .opened walker) :
    ∃ file ftag, refs.file 0 = some file ∧ file.ftag = some ftag ∧
      (Streamwalker.initial thresh rebuildloc file ftag).openFile objtarget = some walker ∧
      walker.AtFile thresh.gcthreshold ∧ walker.fileno = 0 ∧ walker.ftag = ftag ∧
      walker.gctag = file.gctag.getD Gctag.none ∧ walker.stval = file.stat ∧
      walker.objno = datastreamFilebounds ftag ∧ walker.activeindex = 0 := by
  unfold processOpenstreamwalker at h
  split at h
  · cases h
  split at h
  · cases h
  rename_i file hfile
  split at h
  · split at h <;> cases h
  rename_i ftag htag
  split at h
  · cases h
  rename_i walker' hopen
  obtain rfl := OpenResult.opened.inj h
  obtain ⟨hcur, -⟩ := Streamwalker.openFile_some
    (Streamwalker.initial thresh rebuildloc file ftag) hgc hopen
  have hno : walker'.fileno = 0 := by
    simpa [Streamwalker.cursor, Streamwalker.initial] using congrArg Streamwalker.fileno hcur
  refine ⟨file, ftag, hfile, htag, hopen, ⟨?_, .inl hno⟩, hno, ?_, ?_, ?_, ?_, ?_⟩
  · simpa [Streamwalker.cursor, Streamwalker.initial] using congrArg Streamwalker.gcthresh hcur
  · simpa [Streamwalker.cursor, Streamwalker.initial] using congrArg Streamwalker.ftag hcur
  · simpa [Streamwalker.cursor, Streamwalker.initial] using congrArg Streamwalker.gctag hcur
  · simpa [Streamwalker.cursor, Streamwalker.initial] using congrArg Streamwalker.stval hcur
  · simpa [Streamwalker.cursor, Streamwalker.initial] using congrArg Streamwalker.objno hcur
  · simpa [Streamwalker.cursor, Streamwalker.initial] using congrArg Streamwalker.activeindex hcur

theorem walkStream_safe {thresh : Thresholds} {rebuildloc : Option NeLocation}
    (Inv : Streamwalker → Prop) {Safe : List Opinfo → Prop} (hgc : thresh.gcthreshold ≠ 0)
    (h : ∀ walker₀, processOpenstreamwalker objtarget refs thresh rebuildloc = .opened walker₀ →
      GcInvariant objtarget refs thresh.gcthreshold walker₀ Inv Safe) (n : Nat) :
    ∀ chain ∈ (walkStream objtarget refs thresh rebuildloc n).gcops, Safe chain := by
  unfold walkStream
  cases hopen : processOpenstreamwalker objtarget refs thresh rebuildloc with
  | failed => simp
  | cleanup => simp
  | untagged => simp
  | opened walker₀ =>
    obtain ⟨-, -, -, -, -, hat, -⟩ := opened_some hgc hopen
    exact iterateCalls_safe ((h walker₀ hopen).turn hgc) n ⟨.start, hat, (h walker₀ hopen).start⟩

theorem walkStream_complete {thresh : Thresholds} {rebuildloc : Option NeLocation} {n : Nat}
    {walker' : Streamwalker} (h : (walkStream objtarget refs thresh rebuildloc n).status = .complete walker') :
    ∃ walker, processOpenstreamwalker objtarget refs thresh rebuildloc = .opened walker ∧
      walkStream objtarget refs thresh rebuildloc n = iterateCalls objtarget refs n walker := by
  unfold walkStream at h ⊢
  cases hopen : processOpenstreamwalker objtarget refs thresh rebuildloc with
  | failed => rw [hopen] at h; cases h
  | cleanup => rw [hopen] at h; cases h
  | untagged => rw [hopen] at h; cases h
  | opened walker => exact ⟨walker, rfl, rfl⟩

/-- A GC call always returns: each visit moves on within the stream. -/
theorem iterateLoop_adequate {gcthresh : Int} (hgc : gcthresh ≠ 0) (fuel : Nat) {walker : Streamwalker}
    (h : walker.AtFile gcthresh) (hfuel : refs.length < fuel + walker.fileno) (hpos : 0 < fuel) :
    iterateLoop objtarget refs fuel walker ≠ .outOfFuel := by
  induction fuel generalizing walker with
  | zero => omega
  | succ fuel ih =>
    have hcases := h.cases objtarget refs hgc
    unfold iterateLoop
    cases hstep : walker.iterateStep objtarget refs with
    | failed => simp
    | left walker' => simp only [Streamwalker.dispatchRemaining]; split <;> simp
    | dispatched walker' gcops rbldops => simp
    | again walker' =>
      rw [hstep] at hcases
      obtain ⟨-, -, hno, file, hfile, -⟩ := hcases.visited (h.gcthresh_eq ▸ hgc)
      have hlt := Refs.file_lt hfile
      exact ih (h.visit hgc hcases) (by omega) (by omega)

end Marfs.Rman
