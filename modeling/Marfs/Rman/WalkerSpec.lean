import Marfs.Rman.Streamwalker

/-!
# What each part of the walker does

One specification for each helper of the walker.  The helpers that link ops leave the walker's
position alone (`cursor`), so that a specification names the ops that changed and nothing else:
`delrefOp` for the pending reference deletion, `DeletesObj` for the pending object deletions.
-/

namespace Marfs.Rman

open Datastream Tagging

/-- An inactive file that is old enough is eligible for GC; any other file is live under a non-zero
threshold: linked to a user path, or deactivated too recently. -/
def RefStat.eligible (stval : RefStat) (gcthresh : Int) : Bool :=
  !stval.active && stval.expired gcthresh

variable {gcthresh : Int} {refs : Refs} {fileno : Nat} {file : RefFile}

/-- The claim's reading of a live file agrees with the walker's two tests. -/
theorem RefStat.eligible_eq_false {stval : RefStat} (h : gcthresh ≠ 0) :
    stval.eligible gcthresh = false ↔ 1 < stval.nlink ∨ gcthresh ≤ stval.ctime := by
  simp only [eligible, active, expired, h, ne_eq, not_false_eq_true, decide_true, Bool.true_and,
    Bool.and_eq_false_iff, Bool.not_eq_false', decide_eq_true_eq, decide_eq_false_iff_not, not_lt]

/-- The file of the given number is linked to a user path, or was deactivated too recently. -/
def Refs.Live (refs : Refs) (gcthresh : Int) (fileno : Nat) : Prop :=
  ∃ file, refs.file fileno = some file ∧
    (1 < file.stat.nlink ∨ gcthresh ≤ file.stat.ctime)

theorem Refs.file_lt (h : refs.file fileno = some file) : fileno < refs.length := by
  by_contra hge
  rw [Refs.file, List.getElem?_eq_none (by omega)] at h
  cases h

theorem Refs.live_iff (hgc : gcthresh ≠ 0) (hfile : refs.file fileno = some file) :
    refs.Live gcthresh fileno ↔ file.stat.eligible gcthresh = false := by
  rw [RefStat.eligible_eq_false hgc]
  constructor
  · rintro ⟨file', hfile', h⟩
    obtain rfl : file = file' := Option.some.inj (hfile.symm.trans hfile')
    exact h
  · exact fun h => ⟨file, hfile, h⟩

namespace Streamwalker

def cursor (walker : Streamwalker) : Streamwalker :=
  { walker with gcops := [], rbldops := [], report := {}, activebytes := 0 }

section Cursor

variable {walker walker' : Streamwalker} (h : walker'.cursor = walker.cursor)
include h

theorem cursor_gcthresh : walker'.gcthresh = walker.gcthresh := by
  simpa [cursor] using congrArg gcthresh h

theorem cursor_fileno : walker'.fileno = walker.fileno := by
  simpa [cursor] using congrArg fileno h

theorem cursor_objno : walker'.objno = walker.objno := by
  simpa [cursor] using congrArg objno h

theorem cursor_stval : walker'.stval = walker.stval := by
  simpa [cursor] using congrArg stval h

theorem cursor_ftag : walker'.ftag = walker.ftag := by
  simpa [cursor] using congrArg ftag h

theorem cursor_gctag : walker'.gctag = walker.gctag := by
  simpa [cursor] using congrArg gctag h

theorem cursor_activefiles : walker'.activefiles = walker.activefiles := by
  simpa [cursor] using congrArg activefiles h

end Cursor

variable {walker walker' : Streamwalker} {op : Opinfo} {objtarget : Ftag → Option NeLocation}
  {eos prevdelzero : Bool} {endobj tgtoffset : Nat} {gcops rbldops : List Opinfo}

theorem pullxattrs_of_gcthresh (h : walker.gcthresh ≠ 0) : walker.pullxattrs = true := by simp [pullxattrs, h]

def pending (walker : Streamwalker) : Option Opinfo := delrefOp walker.gcops

/-! ## Updates of the pending ops -/

theorem updateDelref_eq (walker : Streamwalker) (ftag : Ftag) (update : Opinfo → Option Opinfo) :
    walker.updateDelref ftag update =
      (update (walker.pending.getD (newOperation .deleteRef ftag))).map fun op =>
        { walker with gcops := putDelref walker.gcops op } := by
  simp only [updateDelref, updateOperation_deleteRef, pending, Option.map_map]
  rfl

theorem updateDelref_some (walker : Streamwalker) (ftag : Ftag) (update : Opinfo → Option Opinfo)
    (hop : op.type = .deleteRef) (h : update (walker.pending.getD (newOperation .deleteRef ftag)) = some op) :
    ∃ walker', walker.updateDelref ftag update = some walker' ∧ walker'.cursor = walker.cursor ∧
      walker'.gcops ≠ [] ∧
      OpsEffect walker.gcops walker'.gcops (some op) fun _ => False :=
  ⟨{ walker with gcops := putDelref walker.gcops op }, by rw [updateDelref_eq, h]; rfl, rfl,
    putDelref_ne_nil _ _, .put _ hop⟩

theorem deleteObj_spec (walker : Streamwalker) (tmptag : Ftag) :
    ∃ walker', walker.deleteObj tmptag = some walker' ∧ walker'.cursor = walker.cursor ∧
      walker'.gcops ≠ [] ∧
      OpsEffect walker.gcops walker'.gcops walker.pending (· = tmptag.objno) := by
  obtain ⟨ops, hdel, hne, heff⟩ := deleteObject_effect walker.gcops tmptag
  let report := { walker.report with delobjs := walker.report.delobjs + 1 }
  exact ⟨{ walker with gcops := ops, report := report }, by rw [deleteObj, hdel]; rfl, rfl, hne,
    heff⟩

theorem deleteNoted_spec (walker : Streamwalker) (tmptag : Ftag) :
    ∃ walker', walker.deleteNoted tmptag = some walker' ∧ walker'.cursor = walker.cursor ∧
      walker'.gcops ≠ [] ∧
      OpsEffect walker.gcops walker'.gcops
        (if tmptag.objno = 0 then
          some (noteDelzero (walker.pending.getD (newOperation .deleteRef walker.ftag)))
        else walker.pending)
        (· = tmptag.objno) := by
  obtain ⟨walker₁, hdel, hcur, hne, heff⟩ := deleteObj_spec walker tmptag
  have hpend : walker₁.pending = walker.pending := heff.pending_eq
  by_cases h0 : tmptag.objno = 0
  · obtain ⟨walker', hput, hcur', hne', heff'⟩ := updateDelref_some walker₁ walker₁.ftag
      (fun op => some (noteDelzero op)) rfl rfl
    refine ⟨walker', ?_, hcur'.trans hcur, hne', ?_⟩
    · simp only [deleteNoted, hdel, Option.bind_some, if_pos h0, hput]
    · rw [hpend, cursor_ftag hcur] at heff'
      rw [if_pos h0]
      exact (heff.trans heff').congr (by simp)
  · refine ⟨walker₁, ?_, hcur, hne, ?_⟩
    · simp only [deleteNoted, hdel, Option.bind_some, if_neg h0]
    · rw [if_neg h0]
      exact heff

theorem deleteSpan_spec (n : Nat) (walker : Streamwalker) (tmptag : Ftag) :
    ∃ walker', deleteSpan n walker tmptag = some walker' ∧ walker'.cursor = walker.cursor ∧
      OpsEffect walker.gcops walker'.gcops walker.pending
        fun objno => tmptag.objno ≤ objno ∧ objno < tmptag.objno + n := by
  induction n generalizing walker tmptag with
  | zero =>
    refine ⟨walker, rfl, rfl, (OpsEffect.refl walker.gcops).congr fun objno => ?_⟩
    simp only [Nat.add_zero, false_iff]
    omega
  | succ n ih =>
    obtain ⟨walker₁, hdel, hcur, -, heff⟩ := deleteObj_spec walker tmptag
    obtain ⟨walker', hspan, hcur', heff'⟩ :=
      ih walker₁ (tmptag.atObj (tmptag.objno + 1))
    refine ⟨walker', ?_, hcur'.trans hcur, ?_⟩
    · simp only [deleteSpan, hdel, Option.bind_eq_bind, Option.bind_some, hspan]
    · have hpend : walker₁.pending = walker.pending := heff.pending_eq
      rw [hpend] at heff'
      exact (heff.trans heff').congr fun objno => by simp only [Ftag.objno_atObj]; omega

variable {tmptag : Ftag} {op' : Opinfo}

theorem rebuildObj_spec (h : walker.rebuildObj objtarget tmptag = some walker') :
    walker'.cursor = walker.cursor ∧ walker'.gcops = walker.gcops := by
  simp only [rebuildObj, Option.bind_eq_bind, Option.bind_eq_some_iff] at h
  obtain ⟨location, -, h⟩ := h
  split at h
  · obtain ⟨rbldops, -, h⟩ := Option.bind_eq_some_iff.1 h
    obtain rfl := Option.some.inj h
    exact ⟨rfl, rfl⟩
  · obtain rfl := Option.some.inj h
    exact ⟨rfl, rfl⟩

theorem rebuildSpan_spec (n : Nat) (h : rebuildSpan objtarget n walker tmptag = some walker') :
    walker'.cursor = walker.cursor ∧ walker'.gcops = walker.gcops := by
  induction n generalizing walker tmptag with
  | zero => obtain rfl := Option.some.inj h; exact ⟨rfl, rfl⟩
  | succ n ih =>
    simp only [rebuildSpan, Option.bind_eq_bind, Option.bind_eq_some_iff] at h
    obtain ⟨walker₁, h1, h2⟩ := h
    have hobj := rebuildObj_spec h1
    have hrest := ih h2
    exact ⟨hrest.1.trans hobj.1, hrest.2.trans hobj.2⟩

/-! ## The object transition -/

/-- The walker leaves an object that no live file touched, and that is not the deleted object
zero. -/
def LeavesDeadObj (walker : Streamwalker) (prevdelzero : Bool) : Prop :=
  walker.ftag.objno ≠ walker.objno ∧ walker.activefiles = 0 ∧
    (walker.objno ≠ 0 ∨ prevdelzero = false)

instance (walker : Streamwalker) (prevdelzero : Bool) :
    Decidable (walker.LeavesDeadObj prevdelzero) := by unfold LeavesDeadObj; infer_instance

def transitionPending (walker : Streamwalker) (prevdelzero : Bool) : Option Opinfo :=
  if walker.LeavesDeadObj prevdelzero ∧ walker.objno = 0 then
    some (noteDelzero (walker.pending.getD (newOperation .deleteRef walker.ftag)))
  else walker.pending

/-- The files of the current object that are live, after a transition. -/
def transitionActive (walker : Streamwalker) : Nat :=
  if walker.ftag.objno ≠ walker.objno then 0 else walker.activefiles

theorem countTransition_cursor (walker : Streamwalker) : walker.countTransition.cursor = walker.cursor := by
  unfold countTransition; split <;> rfl

theorem countTransition_gcops (walker : Streamwalker) : walker.countTransition.gcops = walker.gcops := by
  unfold countTransition; split <;> rfl

theorem rebuildPrevObj_spec (h : walker.rebuildPrevObj objtarget = some walker') :
    walker'.cursor = walker.cursor ∧ walker'.gcops = walker.gcops := by
  unfold rebuildPrevObj at h
  split at h
  · exact rebuildObj_spec h
  · obtain rfl := Option.some.inj h
    exact ⟨rfl, rfl⟩

theorem rebuildFile_spec (h : walker.rebuildFile objtarget endobj eos = some walker') :
    walker'.cursor = walker.cursor ∧ walker'.gcops = walker.gcops := by
  unfold rebuildFile at h
  split at h
  · exact rebuildSpan_spec _ h
  · obtain rfl := Option.some.inj h
    exact ⟨rfl, rfl⟩

theorem leavePrevObj_spec (walker : Streamwalker) (prevdelzero : Bool) (hgc : walker.gcthresh ≠ 0)
    (hobj : walker.ftag.objno ≠ walker.objno) :
    ∃ walker', walker.leavePrevObj prevdelzero = some walker' ∧
      walker'.cursor = walker.cursor ∧
      OpsEffect walker.gcops walker'.gcops (walker.transitionPending prevdelzero)
        fun objno => walker.LeavesDeadObj prevdelzero ∧ objno = walker.objno := by
  by_cases hl : walker.LeavesDeadObj prevdelzero
  · have hcond : (walker.gcthresh ≠ 0 && walker.activefiles = 0 &&
        (walker.objno ≠ 0 || !prevdelzero)) = true := by
      simpa [hgc] using hl.2
    obtain ⟨walker', hdel, hcur, -, heff⟩ :=
      deleteNoted_spec walker (walker.ftag.atObj walker.objno)
    refine ⟨walker', by rw [leavePrevObj, if_pos hcond, hdel], hcur, ?_⟩
    simp only [transitionPending, hl, true_and]
    exact heff
  · have hcond : ¬ (walker.gcthresh ≠ 0 && walker.activefiles = 0 &&
        (walker.objno ≠ 0 || !prevdelzero)) = true := by
      simpa [LeavesDeadObj, hgc, hobj] using hl
    refine ⟨walker, by rw [leavePrevObj, if_neg hcond], rfl, ?_⟩
    simp only [transitionPending, hl, false_and, if_false]
    exact .refl _

/-- What a transition does: under a GC threshold it deletes the object left behind exactly when
no live file touched it. -/
theorem objectTransition_spec (hgc : walker.gcthresh ≠ 0)
    (h : walker.objectTransition objtarget prevdelzero = some walker') :
    walker'.cursor = { walker.cursor with
        activefiles := walker.transitionActive, objno := walker.ftag.objno } ∧
      OpsEffect walker.gcops walker'.gcops (walker.transitionPending prevdelzero)
        fun objno => walker.LeavesDeadObj prevdelzero ∧ objno = walker.objno := by
  by_cases hobj : walker.ftag.objno = walker.objno
  · have hno : ¬ walker.LeavesDeadObj prevdelzero := fun hl => hl.1 hobj
    simp only [objectTransition, hobj, ne_eq, not_true_eq_false, if_false, Option.some.injEq] at h
    subst h
    refine ⟨by simp [cursor, transitionActive, hobj], ?_⟩
    simp only [transitionPending, hno, false_and, if_false]
    exact .refl _
  · simp only [objectTransition, ne_eq, hobj, not_false_eq_true, if_true, Option.bind_eq_bind,
      Option.bind_eq_some_iff, Option.some.injEq] at h
    obtain ⟨walker₁, hleav, walker₂, hreb, rfl⟩ := h
    have hcur₀ := countTransition_cursor walker
    obtain ⟨walker₁', hleav', hcur₁, heff⟩ := leavePrevObj_spec walker.countTransition
      prevdelzero (by rwa [cursor_gcthresh hcur₀])
      (by rwa [cursor_ftag hcur₀, cursor_objno hcur₀])
    obtain rfl : walker₁' = walker₁ := Option.some.inj (hleav'.symm.trans hleav)
    have hrb := rebuildPrevObj_spec hreb
    have hcur : walker₂.cursor = walker.cursor := hrb.1.trans (hcur₁.trans hcur₀)
    constructor
    · have h2 : walker₂.enterObj.cursor = { walker₂.cursor with
          activefiles := 0, objno := walker₂.ftag.objno } := rfl
      rw [h2, hcur, cursor_ftag hcur]
      simp [transitionActive, hobj]
    · have hops : walker₂.enterObj.gcops = walker₁'.gcops := hrb.2
      have hl : walker.countTransition.LeavesDeadObj prevdelzero ↔
          walker.LeavesDeadObj prevdelzero := by
        simp only [LeavesDeadObj, cursor_ftag hcur₀, cursor_objno hcur₀, cursor_activefiles hcur₀]
      have hp : walker.countTransition.pending = walker.pending :=
        congrArg delrefOp (countTransition_gcops walker)
      rw [hops]
      simpa only [transitionPending, hl, hp, cursor_ftag hcur₀, cursor_objno hcur₀,
        countTransition_gcops] using heff

/-- A transition out of an object that a live file touched, or that is already deleted, links no
GC op. -/
theorem objectTransition_quiet (hgc : walker.gcthresh ≠ 0) (hquiet : ¬ walker.LeavesDeadObj prevdelzero)
    (h : walker.objectTransition objtarget prevdelzero = some walker') : walker'.gcops = walker.gcops := by
  unfold objectTransition at h
  split at h
  · rename_i hobj
    simp only [Option.bind_eq_bind, Option.bind_eq_some_iff, Option.some.injEq] at h
    obtain ⟨walker₁, hleav, walker₂, hreb, rfl⟩ := h
    have hcur := countTransition_cursor walker
    have hcond : ¬ (walker.countTransition.gcthresh ≠ 0 &&
        walker.countTransition.activefiles = 0 &&
        (walker.countTransition.objno ≠ 0 || !prevdelzero)) = true := by
      rw [cursor_gcthresh hcur, cursor_activefiles hcur, cursor_objno hcur]
      simpa [LeavesDeadObj, hgc, hobj] using hquiet
    rw [leavePrevObj, if_neg hcond] at hleav
    obtain rfl := Option.some.inj hleav
    calc walker₂.enterObj.gcops = walker₂.gcops := rfl
      _ = walker.countTransition.gcops := (rebuildPrevObj_spec hreb).2
      _ = walker.gcops := countTransition_gcops walker
  · obtain rfl := Option.some.inj h
    rfl

/-! ## Eligible files -/

theorem addInprog_some (h : walker.addInprog op = some op') :
    op'.type = .deleteRef ∧
      ((op.count ≠ 0 ∧ op.ftag.fileno + op.count - 1 = walker.fileno ∧
          op'.ftag.fileno = op.ftag.fileno ∧ op'.count = op.count + walker.gctag.refcnt ∧
          op'.delrefinf = { op.delrefinf with eos := op.delrefinf.eos || walker.gctag.eos }) ∨
        (op.count = 0 ∧ op'.ftag.fileno = walker.ftag.fileno ∧
          op'.count = walker.gctag.refcnt ∧
          op'.delrefinf = { op.delrefinf with
            prevActiveIndex := walker.activeindex, eos := walker.gctag.eos })) := by
  unfold addInprog at h
  split at h
  · rename_i hcnt
    split at h
    · cases h
    · rename_i hreach
      obtain rfl := Option.some.inj h
      exact ⟨rfl, .inl ⟨hcnt, by simpa using hreach, rfl, rfl, rfl⟩⟩
  · rename_i hcnt
    obtain rfl := Option.some.inj h
    exact ⟨rfl, .inr ⟨by simpa using hcnt, rfl, rfl, rfl⟩⟩

theorem addReference_some (h : walker.addReference eos op = some op') :
    op'.type = .deleteRef ∧
      ((op.count ≠ 0 ∧ op.delrefinf.prevActiveIndex = walker.activeindex ∧
          op'.ftag.fileno = op.ftag.fileno ∧ op'.count = op.count + 1 + walker.gctag.refcnt ∧
          op'.delrefinf = { op.delrefinf with eos := op.delrefinf.eos || eos }) ∨
        (op.count = 0 ∧ op'.ftag.fileno = walker.ftag.fileno ∧
          op'.count = 1 + walker.gctag.refcnt ∧
          op'.delrefinf = { op.delrefinf with
            prevActiveIndex := walker.activeindex, eos := eos })) := by
  unfold addReference at h
  split at h
  · rename_i hcnt
    split at h
    · cases h
    · rename_i hprev
      obtain rfl := Option.some.inj h
      exact ⟨rfl, .inl ⟨hcnt, by simpa using hprev, rfl, rfl, rfl⟩⟩
  · rename_i hcnt
    obtain rfl := Option.some.inj h
    exact ⟨rfl, .inr ⟨by simpa using hcnt, rfl, rfl, rfl⟩⟩

theorem eligibleRef_iff {ftag : Ftag} :
    (∀ walker', walker.eligibleRef ftag eos = some walker' →
      ∃ op, walker.addReference eos (walker.pending.getD (newOperation .deleteRef ftag)) = some op ∧
        walker'.cursor = walker.cursor ∧
        OpsEffect walker.gcops walker'.gcops (some op) fun _ => False) ∧
    (∀ op, walker.addReference eos (walker.pending.getD (newOperation .deleteRef ftag)) = some op →
      ∃ walker', walker.eligibleRef ftag eos = some walker') := by
  constructor
  · intro walker' h
    obtain ⟨walker₁, h₁, rfl⟩ := Option.map_eq_some_iff.1 h
    rw [updateDelref_eq] at h₁
    obtain ⟨op, hop, rfl⟩ := Option.map_eq_some_iff.1 h₁
    exact ⟨op, hop, rfl, .put _ (addReference_some hop).1⟩
  · intro op hop
    exact ⟨_, by rw [eligibleRef, updateDelref_eq, hop]; rfl⟩

/-- The first object of an eligible file is deleted with the file. -/
def FreesFirstObj (walker : Streamwalker) (endobj : Nat) : Prop :=
  endobj ≠ walker.objno ∧ walker.activefiles = 0 ∧
    (walker.ftag.objno ≠ 0 ∨ walker.gctag.delzero = false)

instance (walker : Streamwalker) (endobj : Nat) : Decidable (walker.FreesFirstObj endobj) := by
  unfold FreesFirstObj; infer_instance

def EligibleDeletes (walker : Streamwalker) (endobj : Nat) (eos : Bool) (objno : Nat) : Prop :=
  (walker.FreesFirstObj endobj ∧ objno = walker.ftag.objno) ∨
    (endobj ≠ walker.objno ∧ walker.ftag.objno < objno ∧ objno < endobj) ∨
    (eos = true ∧ (endobj ≠ walker.objno ∨ walker.activefiles = 0) ∧ objno = endobj)

theorem eligibleFirstObj_spec (walker : Streamwalker) (hend : endobj ≠ walker.objno) :
    ∃ walker', walker.eligibleFirstObj = some walker' ∧ walker'.cursor = walker.cursor ∧
      OpsEffect walker.gcops walker'.gcops
        (if walker.FreesFirstObj endobj ∧ walker.ftag.objno = 0 then
          some (noteDelzero (walker.pending.getD (newOperation .deleteRef walker.ftag)))
        else walker.pending)
        fun objno => walker.FreesFirstObj endobj ∧ objno = walker.ftag.objno := by
  by_cases hf : walker.FreesFirstObj endobj
  · have hcond : (walker.activefiles = 0 && (walker.ftag.objno ≠ 0 || !walker.gctag.delzero)) =
        true := by simpa using hf.2
    obtain ⟨walker', hdel, hcur, -, heff⟩ := deleteNoted_spec walker walker.ftag
    refine ⟨walker', by rw [eligibleFirstObj, if_pos hcond, hdel], hcur, ?_⟩
    simpa only [hf, true_and] using heff
  · have hcond : ¬ (walker.activefiles = 0 &&
        (walker.ftag.objno ≠ 0 || !walker.gctag.delzero)) = true := by
      simpa [FreesFirstObj, hend] using hf
    refine ⟨walker, by rw [eligibleFirstObj, if_neg hcond], rfl, ?_⟩
    simp only [hf, false_and, if_false]
    exact .refl _

theorem eligibleObjs_spec (walker : Streamwalker) (endobj : Nat) :
    ∃ walker', walker.eligibleObjs endobj = some walker' ∧ walker'.cursor = walker.cursor ∧
      OpsEffect walker.gcops walker'.gcops
        (if walker.FreesFirstObj endobj ∧ walker.ftag.objno = 0 then
          some (noteDelzero (walker.pending.getD (newOperation .deleteRef walker.ftag)))
        else walker.pending)
        fun objno => (walker.FreesFirstObj endobj ∧ objno = walker.ftag.objno) ∨
          (endobj ≠ walker.objno ∧ walker.ftag.objno < objno ∧ objno < endobj) := by
  by_cases hend : endobj = walker.objno
  · have hf : ¬ walker.FreesFirstObj endobj := fun hf => hf.1 hend
    refine ⟨walker, by simp [eligibleObjs, hend], rfl, ?_⟩
    simp only [hf, false_and, if_false]
    exact (OpsEffect.refl _).congr fun objno => by simp [hend]
  · obtain ⟨walker₁, hfst, hcur₁, heff₁⟩ := eligibleFirstObj_spec walker hend
    obtain ⟨walker', hspan, hcur, heff⟩ := deleteSpan_spec (endobj - (walker₁.ftag.objno + 1))
      walker₁ (walker₁.ftag.atObj (walker₁.ftag.objno + 1))
    refine ⟨walker', ?_, hcur.trans hcur₁, ?_⟩
    · simp only [eligibleObjs, ne_eq, hend, not_false_eq_true, if_true, Option.bind_eq_bind,
        hfst, Option.bind_some, hspan]
    · rw [show walker₁.pending = _ from heff₁.pending_eq] at heff
      refine (heff₁.trans heff).congr fun objno => or_congr_right ?_
      simp only [Ftag.objno_atObj, cursor_ftag hcur₁, hend, ne_eq, not_false_eq_true, true_and]
      omega

theorem eligibleFinalObj_spec (walker : Streamwalker) (endobj : Nat) (eos : Bool) :
    ∃ walker', walker.eligibleFinalObj endobj eos = some walker' ∧
      walker'.cursor = walker.cursor ∧
      OpsEffect walker.gcops walker'.gcops walker.pending
        fun objno => eos = true ∧ (endobj ≠ walker.objno ∨ walker.activefiles = 0) ∧
          objno = endobj := by
  by_cases hc : (eos && (endobj ≠ walker.objno || walker.activefiles = 0)) = true
  · obtain ⟨walker', hdel, hcur, -, heff⟩ := deleteObj_spec walker (walker.ftag.atObj endobj)
    refine ⟨walker', by rw [eligibleFinalObj, if_pos hc, hdel], hcur, heff.congr fun objno => ?_⟩
    have hc' : eos = true ∧ (endobj ≠ walker.objno ∨ walker.activefiles = 0) := by simpa using hc
    simp [hc'.1, hc'.2]
  · refine ⟨walker, by rw [eligibleFinalObj, if_neg hc], rfl, (OpsEffect.refl _).congr fun objno => ?_⟩
    have hc' : ¬ (eos = true ∧ (endobj ≠ walker.objno ∨ walker.activefiles = 0)) := by
      simpa using hc
    simp only [false_iff]
    exact fun h => hc' ⟨h.1, h.2.1⟩

def eligiblePending (walker : Streamwalker) (endobj : Nat) (op : Opinfo) : Opinfo :=
  if walker.FreesFirstObj endobj ∧ walker.ftag.objno = 0 then noteDelzero op else op

theorem eligibleFile_some (h : walker.eligibleFile endobj eos = some walker') :
    ∃ op, walker.addReference eos
        (walker.pending.getD (newOperation .deleteRef walker.ftag)) = some op ∧
      walker'.cursor = walker.cursor ∧
      OpsEffect walker.gcops walker'.gcops (some (walker.eligiblePending endobj op))
        (walker.EligibleDeletes endobj eos) := by
  simp only [eligibleFile, Option.bind_eq_bind, Option.bind_eq_some_iff] at h
  obtain ⟨walker₁, href, walker₂, hobjs, hfinal⟩ := h
  obtain ⟨op, hop, hcur₁, heff₁⟩ := eligibleRef_iff.1 _ href
  obtain ⟨walker₂', hobjs', hcur₂, heff₂⟩ := eligibleObjs_spec walker₁ endobj
  obtain rfl : walker₂' = walker₂ := Option.some.inj (hobjs'.symm.trans hobjs)
  obtain ⟨walker₃, hfinal', hcur₃, heff₃⟩ := eligibleFinalObj_spec walker₂' endobj eos
  obtain rfl : walker₃ = walker' := Option.some.inj (hfinal'.symm.trans hfinal)
  have hcur := hcur₂.trans hcur₁
  refine ⟨op, hop, hcur₃.trans hcur, ?_⟩
  have hp₁ : walker₁.pending = some op := heff₁.pending_eq
  have hfrees : walker₁.FreesFirstObj endobj ↔ walker.FreesFirstObj endobj := by
    simp only [FreesFirstObj, cursor_objno hcur₁, cursor_activefiles hcur₁, cursor_ftag hcur₁,
      cursor_gctag hcur₁]
  have hp₂ : walker₂'.pending = some (walker.eligiblePending endobj op) := by
    rw [show walker₂'.pending = _ from heff₂.pending_eq]
    simp only [hfrees, cursor_ftag hcur₁, hp₁, Option.getD_some, eligiblePending]
    split <;> rfl
  rw [hp₂] at heff₃
  refine ((heff₁.trans heff₂).trans heff₃).congr fun objno => ?_
  simp only [EligibleDeletes, hfrees, cursor_ftag hcur₁, cursor_objno hcur₁, cursor_objno hcur,
    cursor_activefiles hcur, false_or, or_assoc]

theorem eligibleFile_isSome (h : walker.addReference eos
      (walker.pending.getD (newOperation .deleteRef walker.ftag)) = some op) :
    ∃ walker', walker.eligibleFile endobj eos = some walker' := by
  obtain ⟨walker₁, href⟩ := eligibleRef_iff.2 op h
  obtain ⟨walker₂, hobjs, -, -⟩ := eligibleObjs_spec walker₁ endobj
  obtain ⟨walker₃, hfinal, -, -⟩ := eligibleFinalObj_spec walker₂ endobj eos
  exact ⟨walker₃, by
    simp only [eligibleFile, Option.bind_eq_bind, href, Option.bind_some, hobjs, hfinal]⟩

/-! ## Visiting a file -/

theorem collects_eq (walker : Streamwalker) : walker.collects = walker.stval.eligible walker.gcthresh := rfl

theorem keeps_of_not_collects (hgc : walker.gcthresh ≠ 0) (h : walker.collects = false) :
    (walker.stval.active || walker.assumeactive) = true := by
  simp only [collects, RefStat.expired, hgc, ne_eq, not_false_eq_true, decide_true,
    Bool.true_and, Bool.and_eq_false_iff, Bool.not_eq_false', decide_eq_false_iff_not,
    not_lt] at h
  simp only [assumeactive, RefStat.expired, hgc, ne_eq, not_false_eq_true, decide_true,
    Bool.true_and]
  rcases h with h | h
  · simp [h]
  · cases hact : walker.stval.active <;> simp [h]

theorem not_keeps_of_collects (h : walker.collects = true) :
    (walker.stval.active || walker.assumeactive) = false := by
  simp only [collects, Bool.and_eq_true, Bool.not_eq_true'] at h
  simp [assumeactive, h.1, h.2]

def passedActive (walker : Streamwalker) : Nat :=
  if datastreamFilebounds walker.ftag ≠ walker.ftag.objno then 0 else walker.transitionActive

theorem visitFile_stages (hgc : walker.gcthresh ≠ 0)
    (h : walker.visitFile objtarget prevdelzero tgtoffset = some (walker', gcops, rbldops)) :
    walker.ftag.fileno = walker.fileno + tgtoffset ∧
      ∃ walker₁ walker₂ walker₃ : Streamwalker,
        walker.objectTransition objtarget prevdelzero = some walker₁ ∧
        walker₁.collectWith (fun walker₁ => walker₁.eligibleFile
          (datastreamFilebounds walker.ftag) walker.fileEos) = some walker₂ ∧
        walker₃.cursor = walker₂.cursor ∧ walker₃.gcops = walker₂.gcops ∧
        ((walker₃.passObjects (datastreamFilebounds walker.ftag)).1.passActive
          (walker.fileno + tgtoffset)).2 = gcops ∧
        { ((walker₃.passObjects (datastreamFilebounds walker.ftag)).1.passActive
            (walker.fileno + tgtoffset)).1 with
          fileno := walker.fileno + tgtoffset
          objno := datastreamFilebounds walker.ftag } = walker' := by
  have hpull := pullxattrs_of_gcthresh hgc
  unfold visitFile at h
  simp only [hpull, Bool.true_and, if_true, enterFile] at h
  split at h
  · cases h
  · rename_i hno
    simp only [Option.bind_eq_bind, Option.bind_eq_some_iff, Option.some.injEq, Prod.mk.injEq] at h
    obtain ⟨walker₁, h₁, walker₂, h₂, walker₃, h₃, h₄, h₅, -⟩ := h
    refine ⟨by simpa using hno, walker₁, walker₂, walker₃, h₁, h₂, ?_, ?_, h₅, h₄⟩
    · rw [(rebuildFile_spec h₃).1]
      unfold noteVolatile noteFile
      split <;> rfl
    · rw [(rebuildFile_spec h₃).2]
      unfold noteVolatile noteFile
      split <;> rfl

theorem passObjects_cursor (walker : Streamwalker) (endobj : Nat) :
    (walker.passObjects endobj).1.cursor = { walker.cursor with
      activefiles := if endobj ≠ walker.objno then 0 else walker.activefiles } := by
  unfold passObjects
  by_cases h : walker.objno = endobj
  · simp [h, cursor]
  · have h' : endobj ≠ walker.objno := fun he => h he.symm
    simp [h, h', cursor]

theorem passObjects_gcops (walker : Streamwalker) (endobj : Nat) :
    (walker.passObjects endobj).1.gcops = walker.gcops := by
  unfold passObjects; split <;> rfl

theorem keeps_cursor (h : walker'.cursor = walker.cursor) :
    (walker'.stval.active || walker'.assumeactive) =
      (walker.stval.active || walker.assumeactive) := by
  simp only [assumeactive, cursor_stval h, cursor_gcthresh h]

structure Visited (walker walker' : Streamwalker) : Prop where
  gcthresh_eq : walker'.gcthresh = walker.gcthresh
  fileno_eq : walker'.fileno = walker.ftag.fileno
  objno_eq : walker'.objno = datastreamFilebounds walker.ftag
  stval_eq : walker'.stval = walker.stval
  ftag_eq : walker'.ftag = walker.ftag
  gctag_eq : walker'.gctag = walker.gctag

theorem passObjects_visit {walker₁ walker₂ : Streamwalker}
    (h₁ : walker₁.cursor = { walker.cursor with
      activefiles := walker.transitionActive, objno := walker.ftag.objno })
    (h₂ : walker₂.cursor = walker₁.cursor) :
    (walker₂.passObjects (datastreamFilebounds walker.ftag)).1.cursor = { walker.cursor with
      activefiles := walker.passedActive, objno := walker.ftag.objno } := by
  have hobj : walker₂.objno = walker.ftag.objno := by
    simpa [cursor] using congrArg objno (h₂.trans h₁)
  have hact : walker₂.activefiles = walker.transitionActive := by
    simpa [cursor] using congrArg activefiles (h₂.trans h₁)
  rw [passObjects_cursor, h₂, h₁, hobj, hact]
  rfl

theorem visitFile_live_transition (hgc : walker.gcthresh ≠ 0)
    (hlive : walker.stval.eligible walker.gcthresh = false)
    (h : walker.visitFile objtarget prevdelzero tgtoffset = some (walker', gcops, rbldops)) :
    walker.ftag.fileno = walker.fileno + tgtoffset ∧ Visited walker walker' ∧
      walker'.gcops = [] ∧ walker'.activeindex = walker.ftag.fileno ∧
      walker'.activefiles = walker.passedActive + 1 ∧
      ∃ walker₁, walker.objectTransition objtarget prevdelzero = some walker₁ ∧
        gcops = walker₁.gcops := by
  obtain ⟨hno, walker₁, walker₂, walker₃, h₁, h₂, h₃, hops₃, rfl, rfl⟩ := visitFile_stages hgc h
  obtain ⟨hcur₁, -⟩ := objectTransition_spec hgc h₁
  have hst : walker₁.stval = walker.stval := by simpa [cursor] using congrArg stval hcur₁
  have hth : walker₁.gcthresh = walker.gcthresh := by simpa [cursor] using congrArg gcthresh hcur₁
  have hno₁ : walker₁.collects = false := by rw [collects_eq, hst, hth]; exact hlive
  have hkeep := keeps_of_not_collects (by rwa [hth]) hno₁
  rw [collectWith, hno₁] at h₂
  obtain rfl : walker₁ = walker₂ := by simpa using h₂
  have hcur₄ := passObjects_visit hcur₁ h₃
  have hops₄ := passObjects_gcops walker₃ (datastreamFilebounds walker.ftag)
  generalize (walker₃.passObjects (datastreamFilebounds walker.ftag)).1 = walker₄ at *
  have hst₄ : walker₄.stval = walker.stval := by simpa [cursor] using congrArg stval hcur₄
  have hth₄ : walker₄.gcthresh = walker.gcthresh := by
    simpa [cursor] using congrArg gcthresh hcur₄
  -- the file is kept, so that the last stage dispatches
  have hkeep₄ : (walker₄.stval.active || walker₄.assumeactive) = true := by
    simpa only [assumeactive, hst, hth, hst₄, hth₄] using hkeep
  simp only [passActive, hkeep₄, if_true]
  refine ⟨hno, ⟨hth₄, hno.symm, rfl, hst₄, ?_, ?_⟩, trivial, hno.symm, ?_, walker₁, h₁, ?_⟩
  · simpa [cursor] using congrArg ftag hcur₄
  · simpa [cursor] using congrArg gctag hcur₄
  · have hact : walker₄.activefiles = walker.passedActive := by
      simpa [cursor] using congrArg activefiles hcur₄
    rw [hact]
  · rw [hops₄, hops₃]

theorem visitFile_live (hgc : walker.gcthresh ≠ 0) (hlive : walker.stval.eligible walker.gcthresh = false)
    (h : walker.visitFile objtarget prevdelzero tgtoffset = some (walker', gcops, rbldops)) :
    walker.ftag.fileno = walker.fileno + tgtoffset ∧ Visited walker walker' ∧
      walker'.gcops = [] ∧ walker'.activeindex = walker.ftag.fileno ∧
      walker'.activefiles = walker.passedActive + 1 ∧
      OpsEffect walker.gcops gcops (walker.transitionPending prevdelzero)
        fun objno => walker.LeavesDeadObj prevdelzero ∧ objno = walker.objno := by
  obtain ⟨hno, hv, hops, hidx, hfiles, walker₁, h₁, rfl⟩ := visitFile_live_transition hgc hlive h
  exact ⟨hno, hv, hops, hidx, hfiles, (objectTransition_spec hgc h₁).2⟩

theorem visitFile_eligible (hgc : walker.gcthresh ≠ 0) (helig : walker.stval.eligible walker.gcthresh = true)
    (h : walker.visitFile objtarget prevdelzero tgtoffset = some (walker', gcops, rbldops)) :
    walker.ftag.fileno = walker.fileno + tgtoffset ∧ Visited walker walker' ∧
      gcops = [] ∧ walker'.activeindex = walker.activeindex ∧
      walker'.activefiles = walker.passedActive ∧
      ∃ (walker₁ : Streamwalker) (op : Opinfo),
        walker₁.cursor = { walker.cursor with
          activefiles := walker.transitionActive, objno := walker.ftag.objno } ∧
        walker₁.addReference walker.fileEos ((walker.transitionPending prevdelzero).getD
          (newOperation .deleteRef walker.ftag)) = some op ∧
        OpsEffect walker.gcops walker'.gcops
          (some (walker₁.eligiblePending (datastreamFilebounds walker.ftag) op))
          fun objno => (walker.LeavesDeadObj prevdelzero ∧ objno = walker.objno) ∨
            walker₁.EligibleDeletes (datastreamFilebounds walker.ftag) walker.fileEos objno := by
  obtain ⟨hno, walker₁, walker₂, walker₃, h₁, h₂, h₃, hops₃, rfl, rfl⟩ := visitFile_stages hgc h
  obtain ⟨hcur₁, heff₁⟩ := objectTransition_spec hgc h₁
  have hst : walker₁.stval = walker.stval := by simpa [cursor] using congrArg stval hcur₁
  have hth : walker₁.gcthresh = walker.gcthresh := by simpa [cursor] using congrArg gcthresh hcur₁
  have hft : walker₁.ftag = walker.ftag := by simpa [cursor] using congrArg ftag hcur₁
  have hyes : walker₁.collects = true := by rw [collects_eq, hst, hth]; exact helig
  have hkeep := not_keeps_of_collects hyes
  rw [collectWith, hyes, if_pos rfl] at h₂
  obtain ⟨op, hop, hcur₂, heff₂⟩ := eligibleFile_some h₂
  rw [show walker₁.pending = _ from heff₁.pending_eq, hft] at hop
  have hcur₄ := passObjects_visit hcur₁ (h₃.trans hcur₂)
  have hops₄ := passObjects_gcops walker₃ (datastreamFilebounds walker.ftag)
  generalize (walker₃.passObjects (datastreamFilebounds walker.ftag)).1 = walker₄ at *
  have hst₄ : walker₄.stval = walker.stval := by simpa [cursor] using congrArg stval hcur₄
  have hth₄ : walker₄.gcthresh = walker.gcthresh := by
    simpa [cursor] using congrArg gcthresh hcur₄
  have hkeep₄ : (walker₄.stval.active || walker₄.assumeactive) = false := by
    simpa only [assumeactive, hst, hth, hst₄, hth₄] using hkeep
  simp only [passActive, hkeep₄, Bool.false_eq_true, if_false]
  refine ⟨hno, ⟨hth₄, hno.symm, rfl, hst₄, ?_, ?_⟩, trivial, ?_, ?_, walker₁, op, hcur₁, hop, ?_⟩
  · simpa [cursor] using congrArg ftag hcur₄
  · simpa [cursor] using congrArg gctag hcur₄
  · simpa [cursor] using congrArg activeindex hcur₄
  · simpa [cursor] using congrArg activefiles hcur₄
  · rw [hops₄, hops₃]
    exact heff₁.trans heff₂

/-! ## Visits that succeed -/

section Succeeds

variable {objtarget : Ftag → Option NeLocation} (htarget : ∀ ftag, (objtarget ftag).isSome)
include htarget

theorem rebuildObj_isSome (walker : Streamwalker) (tmptag : Ftag) :
    (walker.rebuildObj objtarget tmptag).isSome := by
  obtain ⟨location, hloc⟩ := Option.isSome_iff_exists.1 (htarget tmptag)
  obtain ⟨rbldops, hops⟩ := Option.isSome_iff_exists.1
    (countObject_isSome walker.rbldops tmptag (.inr rfl))
  simp only [rebuildObj, hloc, hops, Option.bind_eq_bind, Option.bind_some]
  split <;> rfl

theorem rebuildSpan_isSome (n : Nat) (walker : Streamwalker) (tmptag : Ftag) :
    (rebuildSpan objtarget n walker tmptag).isSome := by
  induction n generalizing walker tmptag with
  | zero => rfl
  | succ n ih =>
    obtain ⟨walker₁, h₁⟩ := Option.isSome_iff_exists.1 (rebuildObj_isSome htarget walker tmptag)
    simp only [rebuildSpan, h₁, Option.bind_eq_bind, Option.bind_some]
    exact ih walker₁ _

theorem rebuildFile_isSome (walker : Streamwalker) (endobj : Nat) (eos : Bool) :
    (walker.rebuildFile objtarget endobj eos).isSome := by
  unfold rebuildFile
  split
  · exact rebuildSpan_isSome htarget _ _ _
  · rfl

theorem objectTransition_isSome (walker : Streamwalker) (prevdelzero : Bool)
    (hgc : walker.gcthresh ≠ 0) : (walker.objectTransition objtarget prevdelzero).isSome := by
  unfold objectTransition
  split
  · rename_i hobj
    have hcur := countTransition_cursor walker
    obtain ⟨walker₁, hleav, -⟩ := leavePrevObj_spec walker.countTransition prevdelzero
      (by rwa [cursor_gcthresh hcur]) (by rwa [cursor_ftag hcur, cursor_objno hcur])
    have hreb : (walker₁.rebuildPrevObj objtarget).isSome := by
      unfold rebuildPrevObj
      split
      · exact rebuildObj_isSome htarget _ _
      · rfl
    obtain ⟨walker₂, hreb⟩ := Option.isSome_iff_exists.1 hreb
    simp [hleav, hreb]
  · rfl

theorem visitFile_isSome {walker : Streamwalker} {prevdelzero : Bool} {tgtoffset : Nat}
    (hgc : walker.gcthresh ≠ 0) (hno : walker.ftag.fileno = walker.fileno + tgtoffset)
    (hacc : walker.stval.eligible walker.gcthresh = true → ∀ walker₁ : Streamwalker,
      walker₁.cursor = { walker.cursor with
        activefiles := walker.transitionActive, objno := walker.ftag.objno } →
      ∃ op, walker₁.addReference walker.fileEos ((walker.transitionPending prevdelzero).getD
        (newOperation .deleteRef walker.ftag)) = some op) :
    (walker.visitFile objtarget prevdelzero tgtoffset).isSome := by
  have hpull := pullxattrs_of_gcthresh hgc
  obtain ⟨walker₁, h₁⟩ := Option.isSome_iff_exists.1
    (objectTransition_isSome htarget walker prevdelzero hgc)
  obtain ⟨hcur₁, heff₁⟩ := objectTransition_spec hgc h₁
  have hcollect : ∃ walker₂, walker₁.collectWith (fun walker₁ =>
      walker₁.eligibleFile (datastreamFilebounds walker.ftag) walker.fileEos) = some walker₂ := by
    unfold collectWith
    split
    · rename_i hc
      have hst : walker₁.stval = walker.stval := by simpa [cursor] using congrArg stval hcur₁
      have hth : walker₁.gcthresh = walker.gcthresh := by
        simpa [cursor] using congrArg gcthresh hcur₁
      have hft : walker₁.ftag = walker.ftag := by simpa [cursor] using congrArg ftag hcur₁
      rw [collects_eq, hst, hth] at hc
      obtain ⟨op, hop⟩ := hacc hc walker₁ hcur₁
      rw [show walker.transitionPending prevdelzero = _ from heff₁.pending_eq.symm, ← hft] at hop
      exact eligibleFile_isSome hop
    · exact ⟨walker₁, rfl⟩
  obtain ⟨walker₂, h₂⟩ := hcollect
  obtain ⟨walker₃, h₃⟩ := Option.isSome_iff_exists.1 (rebuildFile_isSome htarget
    (walker₂.noteVolatile.noteFile true) (datastreamFilebounds walker.ftag) walker.fileEos)
  simp [visitFile, hpull, hno, enterFile, h₁, h₂, h₃]

end Succeeds

/-! ## File zero -/

/-- The objects of an eligible file zero are deleted now. -/
def OpensObjs (walker : Streamwalker) (endobj : Nat) (eos : Bool) : Prop :=
  (endobj ≠ walker.objno ∨ eos = true) ∧ walker.gctag.delzero = false

instance (walker : Streamwalker) (endobj : Nat) (eos : Bool) :
    Decidable (walker.OpensObjs endobj eos) := by unfold OpensObjs; infer_instance

def openPending (walker : Streamwalker) (endobj : Nat) (eos : Bool) : Option Opinfo :=
  let sole := if eos then
    some (walker.openSole (walker.pending.getD (newOperation .deleteRef walker.ftag)))
    else walker.pending
  if walker.OpensObjs endobj eos then
    some (walker.openDummy eos (sole.getD (newOperation .deleteRef walker.ftag)))
  else sole

theorem openSoleRef_spec (walker : Streamwalker) (eos : Bool) :
    ∃ walker', walker.openSoleRef eos = some walker' ∧ walker'.cursor = walker.cursor ∧
      OpsEffect walker.gcops walker'.gcops
        (if eos then
          some (walker.openSole (walker.pending.getD (newOperation .deleteRef walker.ftag)))
        else walker.pending) fun _ => False := by
  cases eos with
  | false => exact ⟨walker, rfl, rfl, .refl _⟩
  | true =>
    obtain ⟨walker₁, hput, hcur, -, heff⟩ := updateDelref_some walker walker.ftag
      (fun op => some (walker.openSole op)) rfl rfl
    let report := { walker₁.report with
      delfiles := walker₁.report.delfiles + 1
      delstreams := walker₁.report.delstreams + 1 }
    exact ⟨{ walker₁ with report := report }, by rw [openSoleRef, if_pos rfl, hput]; rfl, hcur,
      heff⟩

theorem openObjs_spec (walker : Streamwalker) (endobj : Nat) (eos : Bool) :
    ∃ walker', walker.openObjs endobj eos = some walker' ∧ walker'.cursor = walker.cursor ∧
      OpsEffect walker.gcops walker'.gcops
        (if walker.OpensObjs endobj eos then
          some (walker.openDummy eos
            (walker.pending.getD (newOperation .deleteRef walker.ftag)))
        else walker.pending)
        fun objno => walker.OpensObjs endobj eos ∧ walker.ftag.objno ≤ objno ∧
          objno < (if eos then endobj + 1 else endobj) := by
  by_cases ho : walker.OpensObjs endobj eos
  · have hcond : ((endobj ≠ walker.objno || eos) && !walker.gctag.delzero) = true := by
      simpa [OpensObjs] using ho
    obtain ⟨walker₁, hspan, hcur₁, heff₁⟩ := deleteSpan_spec
      ((if eos then endobj + 1 else endobj) - walker.ftag.objno) walker walker.ftag
    have hp : walker₁.pending = walker.pending := heff₁.pending_eq
    obtain ⟨walker', hput, hcur, -, heff⟩ := updateDelref_some walker₁ walker₁.ftag
      (fun op => some (walker₁.openDummy eos op)) rfl rfl
    refine ⟨walker', ?_, hcur.trans hcur₁, ?_⟩
    · simp only [openObjs, hcond, if_true, hspan, Option.bind_some, hput]
    · have hdummy : ∀ op, walker₁.openDummy eos op = walker.openDummy eos op := fun op => by
        simp only [openDummy, cursor_gctag hcur₁]
      rw [hp, hdummy, cursor_ftag hcur₁] at heff
      rw [if_pos ho]
      refine (heff₁.trans heff).congr fun objno => ?_
      simp only [ho, true_and, or_false]
      omega
  · have hcond : ¬ ((endobj ≠ walker.objno || eos) && !walker.gctag.delzero) = true := by
      simpa [OpensObjs] using ho
    refine ⟨walker, by rw [openObjs, if_neg hcond], rfl, ?_⟩
    rw [if_neg ho]
    exact (OpsEffect.refl _).congr fun objno => by simp [ho]

theorem openEligible_spec (walker : Streamwalker) (endobj : Nat) (eos : Bool) :
    ∃ walker', walker.openEligible endobj eos = some walker' ∧
      walker'.cursor = walker.cursor ∧
      OpsEffect walker.gcops walker'.gcops (walker.openPending endobj eos)
        fun objno => walker.OpensObjs endobj eos ∧ walker.ftag.objno ≤ objno ∧
          objno < (if eos then endobj + 1 else endobj) := by
  obtain ⟨walker₁, hsole, hcur₁, heff₁⟩ := openSoleRef_spec walker eos
  obtain ⟨walker', hobjs, hcur, heff⟩ := openObjs_spec walker₁ endobj eos
  refine ⟨walker', by rw [openEligible, hsole, Option.bind_some, hobjs], hcur.trans hcur₁, ?_⟩
  have ho : walker₁.OpensObjs endobj eos ↔ walker.OpensObjs endobj eos := by
    simp only [OpensObjs, cursor_objno hcur₁, cursor_gctag hcur₁]
  have hdummy : ∀ op, walker₁.openDummy eos op = walker.openDummy eos op := fun op => by
    simp only [openDummy, cursor_gctag hcur₁]
  have hp : walker₁.pending = _ := heff₁.pending_eq
  simp only [hp, ho, hdummy, cursor_ftag hcur₁] at heff
  have heff' : OpsEffect walker₁.gcops walker'.gcops (walker.openPending endobj eos) _ := heff
  exact (heff₁.trans heff').congr (by simp)

def openEos (walker : Streamwalker) : Bool :=
  walker.ftag.endofstream || walker.ftag.unfinalized || walker.gctag.eos

/-- The op an eligible file zero leaves: the deletion of a sole file zero, or the dummy op that
keeps the gap behind it. -/
theorem openPending_some (hp : walker.pending = none) (h : walker.openPending endobj eos = some op) :
    (eos = true ∧ op.ftag.fileno = walker.ftag.fileno ∧ op.count = 1 ∧
        op.delrefinf.prevActiveIndex = walker.activeindex ∧ op.delrefinf.eos = true) ∨
      (eos = false ∧ walker.OpensObjs endobj eos ∧
        ((walker.gctag.refcnt = 0 ∧ op.count = 0 ∧ op.ftag.fileno = walker.ftag.fileno) ∨
          (walker.gctag.refcnt ≠ 0 ∧ op.count = walker.gctag.refcnt ∧
            op.ftag.fileno = walker.ftag.fileno + 1)) ∧
        op.delrefinf = { prevActiveIndex := 0, delzero := true, eos := false }) := by
  unfold openPending at h
  rw [hp] at h
  cases eos with
  | true =>
    refine .inl ⟨rfl, ?_⟩
    simp only [if_true, Option.getD_none, Option.getD_some] at h
    split at h <;> (obtain rfl := Option.some.inj h; exact ⟨rfl, rfl, rfl, rfl⟩)
  | false =>
    simp only [Bool.false_eq_true, if_false, Option.getD_none] at h
    split at h
    · rename_i ho
      obtain rfl := Option.some.inj h
      refine .inr ⟨rfl, ho, ?_, ?_⟩
      · by_cases hcnt : walker.gctag.refcnt = 0
        · exact .inl ⟨hcnt, by simp [openDummy, hcnt, newOperation]⟩
        · exact .inr ⟨hcnt, by simp [openDummy, hcnt, newOperation]⟩
      · by_cases hcnt : walker.gctag.refcnt = 0 <;>
          simp [openDummy, hcnt, newOperation, Opinfo.delrefinf, Opinfo.setDelref, freshExtinfo]
    · cases h

/-- It carries no error. -/
theorem openPending_errval (hp : walker.pending = none) (h : walker.openPending endobj eos = some op) :
    op.errval = 0 := by
  have hdummy : ∀ base : Opinfo, base.errval = 0 → (walker.openDummy eos base).errval = 0 := by
    intro base hbase
    unfold openDummy
    dsimp only
    split <;> exact hbase
  unfold openPending at h
  rw [hp] at h
  dsimp only at h
  cases eos with
  | true =>
    simp only [if_true, Option.getD_none, Option.getD_some] at h
    split at h
    · obtain rfl := Option.some.inj h
      exact hdummy _ rfl
    · obtain rfl := Option.some.inj h
      rfl
  | false =>
    simp only [Bool.false_eq_true, if_false, Option.getD_none] at h
    split at h
    · obtain rfl := Option.some.inj h
      exact hdummy _ rfl
    · cases h

/-- A file zero that ends its stream always leaves an op. -/
theorem openPending_isSome (walker : Streamwalker) (endobj : Nat) :
    (walker.openPending endobj true).isSome := by
  by_cases ho : walker.OpensObjs endobj true <;> simp [openPending, ho]

theorem openFile_some (walker : Streamwalker) (hgc : walker.gcthresh ≠ 0)
    (h : walker.openFile objtarget = some walker') :
    walker'.cursor = { walker.cursor with
        activefiles := if walker.collects then walker.activefiles else walker.activefiles + 1
        objno := datastreamFilebounds walker.ftag } ∧
      ((walker.collects = false ∧ walker'.gcops = walker.gcops) ∨
        (walker.collects = true ∧
          OpsEffect walker.gcops walker'.gcops
            (walker.openPending (datastreamFilebounds walker.ftag) walker.openEos)
            fun objno => walker.OpensObjs (datastreamFilebounds walker.ftag) walker.openEos ∧
              walker.ftag.objno ≤ objno ∧
              objno < (if walker.openEos then datastreamFilebounds walker.ftag + 1
                else datastreamFilebounds walker.ftag))) := by
  simp only [openFile, Option.bind_eq_bind, Option.bind_eq_some_iff, Option.some.injEq] at h
  obtain ⟨walker₁, h₁, walker₂, h₂, rfl⟩ := h
  obtain ⟨hcur₂, hops₂⟩ := rebuildFile_spec h₂
  have hvol : walker₁.noteVolatile.cursor = walker₁.cursor := by
    unfold noteVolatile; split <;> rfl
  have hvops : walker₁.noteVolatile.gcops = walker₁.gcops := by
    unfold noteVolatile; split <;> rfl
  have hcur₂' : walker₂.cursor = walker₁.cursor := hcur₂.trans hvol
  have hops₂' : walker₂.gcops = walker₁.gcops := hops₂.trans hvops
  by_cases hc : walker.collects = true
  · rw [collectWith, if_pos hc] at h₁
    obtain ⟨walker₁', hopen, hcur₁, heff⟩ := openEligible_spec walker
      (datastreamFilebounds walker.ftag) walker.openEos
    obtain rfl : walker₁' = walker₁ := Option.some.inj (hopen.symm.trans h₁)
    have hcur := hcur₂'.trans hcur₁
    have hkeep : (walker₂.stval.active || walker₂.assumeactive) = false := by
      rw [keeps_cursor hcur]; exact not_keeps_of_collects hc
    rw [openActive, hkeep, if_neg Bool.false_ne_true]
    refine ⟨?_, .inr ⟨hc, ?_⟩⟩
    · rw [if_pos hc, ← hcur, ← cursor_activefiles hcur]; rfl
    · exact hops₂' ▸ heff
  · rw [collectWith, if_neg hc] at h₁
    obtain rfl := Option.some.inj h₁
    have hkeep : (walker₂.stval.active || walker₂.assumeactive) = true := by
      rw [keeps_cursor hcur₂']; exact keeps_of_not_collects hgc (by simpa using hc)
    rw [openActive, hkeep, if_pos rfl]
    refine ⟨?_, .inl ⟨by simpa using hc, hops₂'⟩⟩
    rw [if_neg hc, ← hcur₂', ← cursor_activefiles hcur₂']; rfl

/-- An eligible file zero that is followed by others, and whose objects are gone or shared with
them, leaves no op. -/
theorem openFile_quiet (hquiet : walker.collects = true → walker.openEos = false ∧
      ¬ walker.OpensObjs (datastreamFilebounds walker.ftag) false)
    (h : walker.openFile objtarget = some walker') : walker'.gcops = walker.gcops := by
  simp only [openFile, Option.bind_eq_bind, Option.bind_eq_some_iff, Option.some.injEq] at h
  obtain ⟨walker₁, h₁, walker₂, h₂, rfl⟩ := h
  have hsame : walker₁.gcops = walker.gcops := by
    unfold collectWith at h₁
    split at h₁
    · rename_i hc
      obtain ⟨heos, ho⟩ := hquiet hc
      have hcond : ¬ ((datastreamFilebounds walker.ftag ≠ walker.objno || false) &&
          !walker.gctag.delzero) = true := by
        simpa [OpensObjs] using ho
      rw [openEos] at heos
      rw [heos] at h₁
      simp only [openEligible, openSoleRef, Bool.false_eq_true, if_false, Option.bind_some,
        openObjs, if_neg hcond, Option.some.injEq] at h₁
      rw [h₁]
    · rw [Option.some.inj h₁]
  have hvol : walker₁.noteVolatile.gcops = walker₁.gcops := by
    unfold noteVolatile; split <;> rfl
  have hopen : (walker₂.openActive (datastreamFilebounds walker.ftag)).gcops = walker₂.gcops := by
    unfold openActive; split <;> rfl
  calc (walker₂.openActive (datastreamFilebounds walker.ftag)).gcops = walker₂.gcops := hopen
    _ = walker₁.noteVolatile.gcops := (rebuildFile_spec h₂).2
    _ = walker.gcops := hvol.trans hsame

theorem openFile_isSome (htarget : ∀ ftag, (objtarget ftag).isSome) (walker : Streamwalker) :
    (walker.openFile objtarget).isSome := by
  have hcollect : ∃ walker₁, walker.collectWith (fun walker₁ =>
      walker₁.openEligible (datastreamFilebounds walker.ftag) walker.openEos) =
      some walker₁ := by
    unfold collectWith
    split
    · obtain ⟨walker₁, h₁, -⟩ :=
        openEligible_spec walker (datastreamFilebounds walker.ftag) walker.openEos
      exact ⟨walker₁, h₁⟩
    · exact ⟨walker, rfl⟩
  obtain ⟨walker₁, h₁⟩ := hcollect
  have hreb := rebuildFile_isSome htarget
    ({ walker₁.noteVolatile with
      report := walker₁.noteVolatile.openReport (datastreamFilebounds walker.ftag)
        walker.openEos } : Streamwalker) (datastreamFilebounds walker.ftag) walker.openEos
  obtain ⟨walker₂, h₂⟩ := Option.isSome_iff_exists.1 hreb
  rw [openEos] at h₁ h₂
  simp [openFile, h₁, h₂]

/-! ## The ends of a turn -/

theorem recoverInprog_some (h : walker.recoverInprog = some walker') :
    (¬ (walker.gctag.refcnt ≠ 0 ∧ walker.gctag.inprog = true ∧ walker.gcthresh ≠ 0) ∧
        walker' = walker) ∨
      ((walker.gctag.refcnt ≠ 0 ∧ walker.gctag.inprog = true ∧ walker.gcthresh ≠ 0) ∧
        ∃ op, walker.addInprog (walker.pending.getD
            (newOperation .deleteRef (walker.ftag.atFile (walker.ftag.fileno + 1)))) = some op ∧
          walker'.cursor = { walker.cursor with
            gctag := { walker.gctag with inprog := false } } ∧
          OpsEffect walker.gcops walker'.gcops (some op) fun _ => False) := by
  unfold recoverInprog at h
  split at h
  · rename_i hc
    obtain ⟨walker₁, h₁, rfl⟩ := Option.map_eq_some_iff.1 h
    rw [updateDelref_eq] at h₁
    obtain ⟨op, hop, rfl⟩ := Option.map_eq_some_iff.1 h₁
    exact .inr ⟨by simpa [and_assoc] using hc, op, hop, rfl, .put _ (addInprog_some hop).1⟩
  · rename_i hc
    exact .inl ⟨by simpa [and_assoc] using hc, (Option.some.inj h).symm⟩

theorem trailingFile_some (h : walker.trailingFile tmptag = some walker') :
    walker'.cursor = walker.cursor ∧
      ((walker.collects = false ∧ walker'.gcops = walker.gcops) ∨
        (walker.collects = true ∧
          ∃ op, walker.addReference true
              (walker.pending.getD (newOperation .deleteRef tmptag)) = some op ∧
            OpsEffect walker.gcops walker'.gcops (some op) fun _ => False)) := by
  unfold trailingFile at h
  split at h
  · rename_i hc
    obtain ⟨op, hop, hcur, heff⟩ := eligibleRef_iff.1 _ h
    exact ⟨hcur, .inr ⟨hc, op, hop, heff⟩⟩
  · rename_i hc
    obtain rfl := Option.some.inj h
    exact ⟨rfl, .inl ⟨by simpa using hc, rfl⟩⟩

end Streamwalker

end Marfs.Rman
