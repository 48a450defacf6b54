import Marfs.Rman.Streamwalker

/-!
# Executing reference deletions

`process_deleteref` runs the reference deletions of a chain on the references of their stream.  Each
op first attaches a GCTAG to the previous active file, which marks the deletion as in progress, then
unlinks its targets, and clears the mark.  A second write to a file that the op itself unlinked goes
through the open handle and is lost with the file.

MDAL calls on references that exist succeed, as in the model of the walker; opening a missing one
reports `ENOENT`.
-/

namespace Marfs.Rman

open Tagging

namespace Refs

def setGctag (refs : Refs) (fileno : Nat) (gctag : Gctag) : Refs :=
  refs.modify fileno fun file => file.map fun file => { file with gctag := some gctag }

/-- `unlinkref`; a missing reference is no error. -/
def unlinkref (refs : Refs) (fileno : Nat) : Refs := refs.set fileno none

def unlinkSpan : Nat → Refs → Nat → Refs
  | 0, refs, _ => refs
  | n + 1, refs, fileno => unlinkSpan n (refs.unlinkref fileno) (fileno + 1)

theorem file_setGctag (refs : Refs) (fileno : Nat) (gctag : Gctag) (j : Nat) :
    (refs.setGctag fileno gctag).file j =
      if j = fileno then (refs.file j).map fun file => { file with gctag := some gctag }
      else refs.file j := by
  unfold file setGctag
  rw [List.getElem?_modify]
  by_cases h : j = fileno
  · subst h
    rcases refs[j]? with _ | _ | file <;> simp
  · simp [h, Ne.symm h]

theorem file_unlinkref (refs : Refs) (fileno j : Nat) :
    (refs.unlinkref fileno).file j = if j = fileno then none else refs.file j := by
  unfold file unlinkref
  rw [List.getElem?_set]
  by_cases h : fileno = j
  · subst h
    by_cases hlt : fileno < refs.length <;> simp [hlt]
  · simp [h, Ne.symm h]

theorem file_unlinkSpan (n : Nat) (refs : Refs) (fileno j : Nat) :
    (unlinkSpan n refs fileno).file j =
      if fileno ≤ j ∧ j < fileno + n then none else refs.file j := by
  induction n generalizing refs fileno with
  | zero =>
    rw [if_neg (by omega)]
    rfl
  | succ n ih =>
    rw [unlinkSpan, ih, file_unlinkref]
    by_cases h : j = fileno
    · simp [h]
    · have hiff : (fileno + 1 ≤ j ∧ j < fileno + 1 + n) ↔ (fileno ≤ j ∧ j < fileno + (n + 1)) := by
        omega
      simp only [hiff, if_neg h]

end Refs

/-- The GCTAG a reference deletion attaches: it counts the targets of the op, and any references
deleted earlier between them and the previous active file. -/
def deleterefGctag (op : Opinfo) : Gctag :=
  let prev := op.delrefinf.prevActiveIndex
  { refcnt := op.count + (if prev + 1 < op.ftag.fileno then op.ftag.fileno - 1 - prev else 0)
    delzero := op.delrefinf.delzero
    eos := op.delrefinf.eos
    inprog := op.count ≠ 0 }

def deleteref (refs : Refs) (op : Opinfo) : Refs × Opinfo :=
  let op := { op with start := false }
  match op.extendedinfo with
  | .delref info =>
    match refs.file info.prevActiveIndex with
    | none => (refs, { op with errval := Errno.enoent.toInt })
    | some _ =>
      let gctag := deleterefGctag op
      let refs := refs.setGctag info.prevActiveIndex gctag
      -- for a zero-count op, the tag is all there is to do
      if op.count = 0 then (refs, op)
      else
        let refs := Refs.unlinkSpan op.count refs op.ftag.fileno
        (refs.setGctag info.prevActiveIndex { gctag with inprog := false }, op)
  | _ => (refs, { op with errval := Errno.einval.toInt })

def processDeleteref (refs : Refs) : List Opinfo → Refs × List Opinfo
  | [] => (refs, [])
  | op :: ops =>
    let (refs, op) := deleteref refs op
    let (refs, ops) := processDeleteref refs ops
    (refs, op :: ops)

/-- Execute a chain on the references of its stream; `none` when an op records an error.  Object
deletions do not touch references. -/
def executeChain (refs : Refs) (opchain : List Opinfo) : Option Refs :=
  let (refs, ops) := processDeleteref refs (delrefs opchain)
  if ops.all fun op => op.errval = 0 then some refs else none

def executeChains (refs : Refs) : List (List Opinfo) → Option Refs
  | [] => some refs
  | chain :: chains => (executeChain refs chain).bind fun refs => executeChains refs chains

/-! ## What an op does to the references -/

def finalGctag (op : Opinfo) : Gctag := { deleterefGctag op with inprog := false }

/-- The references after a reference deletion: its targets are gone, and the previous active file,
unless it is itself a target, carries the final GCTAG. -/
def DeletedRefs (refs refs' : Refs) (op : Opinfo) : Prop :=
  ∀ j, refs'.file j =
    if op.CoversRef j then none
    else if j = op.delrefinf.prevActiveIndex then
      (refs.file j).map fun file => { file with gctag := some (finalGctag op) }
    else refs.file j

variable {op : Opinfo} {refs : Refs} {file : RefFile} {opchain : List Opinfo}

theorem delrefinf_eq (h : op.type = .deleteRef) : op.extendedinfo = .delref op.delrefinf := by
  cases hext : op.extendedinfo <;> simp_all [Opinfo.type, Opinfo.delrefinf]

theorem deleteref_spec (hty : op.type = .deleteRef)
    (hprev : refs.file op.delrefinf.prevActiveIndex = some file) :
    ∃ refs', deleteref refs op = (refs', { op with start := false }) ∧
      DeletedRefs refs refs' op := by
  obtain ⟨ext, start, count, errval, ftag⟩ := op
  cases ext with
  | delobj info => cases hty
  | rebuild info => cases hty
  | repack info => cases hty
  | delref info =>
  set op : Opinfo := ⟨.delref info, start, count, errval, ftag⟩ with hop
  change refs.file info.prevActiveIndex = some file at hprev
  by_cases hcnt : count = 0
  · refine ⟨refs.setGctag info.prevActiveIndex (deleterefGctag op), ?_, fun j => ?_⟩
    · simp only [hop, deleteref, hprev, if_pos hcnt]
      rfl
    · have hfinal : finalGctag op = deleterefGctag op := by
        simp [finalGctag, deleterefGctag, hop, hcnt]
      have hcov : ¬ op.CoversRef j := by
        simp only [Opinfo.CoversRef, hop]
        omega
      rw [if_neg hcov, hfinal, Refs.file_setGctag]
      rfl
  · refine ⟨(Refs.unlinkSpan count (refs.setGctag info.prevActiveIndex (deleterefGctag op))
      ftag.fileno).setGctag info.prevActiveIndex (finalGctag op), ?_, fun j => ?_⟩
    · simp only [hop, deleteref, hprev, if_neg hcnt]
      rfl
    · have hcov : op.CoversRef j ↔ ftag.fileno ≤ j ∧ j < ftag.fileno + count := by
        simp [Opinfo.CoversRef, hop, Opinfo.type]
      have hinfo : op.delrefinf = info := rfl
      simp only [Refs.file_setGctag, Refs.file_unlinkSpan, hcov, hinfo]
      by_cases hj : j = info.prevActiveIndex
      · simp only [if_pos hj]
        split
        · simp
        · rw [Option.map_map]; rfl
      · simp only [if_neg hj]

/-- A chain without a reference deletion leaves the references alone. -/
theorem executeChain_none (hone : OneDelref opchain) (h : delrefOp opchain = none) :
    executeChain refs opchain = some refs := by
  have hrefs : delrefs opchain = [] := by rw [hone.delrefs_eq, h]; rfl
  simp [executeChain, hrefs, processDeleteref]

theorem executeChain_some (hone : OneDelref opchain) (h : delrefOp opchain = some op) (herr : op.errval = 0)
    (hprev : refs.file op.delrefinf.prevActiveIndex = some file) :
    ∃ refs', executeChain refs opchain = some refs' ∧ DeletedRefs refs refs' op := by
  have hrefs : delrefs opchain = [op] := by rw [hone.delrefs_eq, h]; rfl
  obtain ⟨refs', hdel, hspec⟩ := deleteref_spec (delrefOp_type h) hprev
  exact ⟨refs', by simp [executeChain, hrefs, processDeleteref, hdel, herr], hspec⟩

theorem executeChain_inv {refs' : Refs} (hone : OneDelref opchain) (h : delrefOp opchain = some op)
    (hexec : executeChain refs opchain = some refs') : DeletedRefs refs refs' op := by
  have hrefs : delrefs opchain = [op] := by rw [hone.delrefs_eq, h]; rfl
  have hext := delrefinf_eq (delrefOp_type h)
  cases hprev : refs.file op.delrefinf.prevActiveIndex with
  | none =>
    simp [executeChain, hrefs, processDeleteref, deleteref, hext, hprev, Errno.toInt] at hexec
  | some file =>
    obtain ⟨refs₁, hdel, hspec⟩ := deleteref_spec (delrefOp_type h) hprev
    simp only [executeChain, hrefs, processDeleteref, hdel] at hexec
    split at hexec
    · obtain rfl := Option.some.inj hexec
      exact hspec
    · cases hexec

end Marfs.Rman
