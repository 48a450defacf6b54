import Mathlib.Data.List.Basic
import Marfs.Tagging.Ftag
import Marfs.Tagging.Rtag

/-!
# Operation chains

The resource manager describes its work as chains of `opinfo` structures.  A producer never builds
a chain by hand: it asks `process_identifyoperation` for the op that a new target belongs to, which
reuses an op of the chain (`searchoperations`) or links a fresh one, and then updates that op in
place.  `updateOperation` is that idiom; its lemmas say what it does to the one reference deletion
of a chain (`delrefOp`) and to the objects a chain deletes (`DeletesObj`).
-/

namespace Marfs.Rman

open Tagging

inductive OperationType where
  | deleteObj
  | deleteRef
  | rebuild
  | repack
  deriving DecidableEq, Repr

structure DelobjInfo where
  offset : Nat
  deriving DecidableEq, Repr

structure DelrefInfo where
  prevActiveIndex : Nat
  delzero : Bool
  eos : Bool
  deriving DecidableEq, Repr

structure RebuildInfo where
  markerpath : List Char
  rtag : Option Rtag
  deriving DecidableEq, Repr

structure RepackInfo where
  totalbytes : Nat
  deriving DecidableEq, Repr

/-- The extended info of an op.  The constructor is the op's type, so that the info an op carries
is always the one its type calls for; a location-based rebuild carries none. -/
inductive Extinfo where
  | delobj (info : DelobjInfo)
  | delref (info : DelrefInfo)
  | rebuild (info : Option RebuildInfo)
  | repack (info : RepackInfo)
  deriving DecidableEq, Repr

/-- Errors an op records. -/
inductive Errno where
  | enoent
  | eagain
  | einval
  deriving DecidableEq, Repr

/-- The value of an error. -/
def Errno.toInt : Errno → Int
  | .enoent => 2
  | .eagain => 11
  | .einval => 22

/-- `opinfo`, without its `next` link: a chain is a list. -/
structure Opinfo where
  extendedinfo : Extinfo
  start : Bool
  count : Nat
  errval : Int
  ftag : Ftag
  deriving DecidableEq, Repr

namespace Opinfo

def type (op : Opinfo) : OperationType :=
  match op.extendedinfo with
  | .delobj _ => .deleteObj
  | .delref _ => .deleteRef
  | .rebuild _ => .rebuild
  | .repack _ => .repack

def delrefinf (op : Opinfo) : DelrefInfo :=
  match op.extendedinfo with
  | .delref info => info
  | _ => { prevActiveIndex := 0, delzero := false, eos := false }

def setDelref (op : Opinfo) (info : DelrefInfo) : Opinfo := { op with extendedinfo := .delref info }

@[simp] theorem type_setDelref (op : Opinfo) (info : DelrefInfo) :
    (op.setDelref info).type = .deleteRef := rfl

@[simp] theorem delrefinf_setDelref (op : Opinfo) (info : DelrefInfo) :
    (op.setDelref info).delrefinf = info := rfl

@[simp] theorem count_setDelref (op : Opinfo) (info : DelrefInfo) :
    (op.setDelref info).count = op.count := rfl

@[simp] theorem ftag_setDelref (op : Opinfo) (info : DelrefInfo) : (op.setDelref info).ftag = op.ftag := rfl

end Opinfo

/-- The zeroed extended info `process_identifyoperation` allocates for an op type. -/
def freshExtinfo : OperationType → Extinfo
  | .deleteObj => .delobj { offset := 0 }
  | .deleteRef => .delref { prevActiveIndex := 0, delzero := false, eos := false }
  | .rebuild => .rebuild none
  | .repack => .repack { totalbytes := 0 }

/-- The op `process_identifyoperation` allocates when no op of the chain fits. -/
def newOperation (type : OperationType) (ftag : Ftag) : Opinfo :=
  { extendedinfo := freshExtinfo type, start := true, count := 0, errval := 0, ftag := ftag }

@[simp] theorem type_newOperation (type : OperationType) (ftag : Ftag) :
    (newOperation type ftag).type = type := by
  cases type <;> rfl

/-- The test `searchoperations` makes on one op: object deletions and rebuilds must end exactly
where the new object starts, repacks where the new file starts, and any reference deletion fits. -/
def reusable (type : OperationType) (ftag : Ftag) (op : Opinfo) : Bool :=
  op.type == type &&
    match type with
    | .deleteObj => ftag.objno == op.ftag.objno + op.count
    | .repack => ftag.fileno == op.ftag.fileno + op.count
    | .rebuild => ftag.objno == op.ftag.objno + op.count
    | .deleteRef => true

/-- `searchoperations`: the position of the op to be reused. -/
def searchoperations (opchain : List Opinfo) (type : OperationType) (ftag : Ftag) : Option Nat :=
  opchain.findIdx? (reusable type ftag)

/-- `process_identifyoperation`: the chain and the position of the op for the new target.
Reference deletions are linked at the tail, anything else at the head. -/
def processIdentifyoperation (opchain : List Opinfo) (type : OperationType) (ftag : Ftag) :
    List Opinfo × Nat :=
  match searchoperations opchain type ftag with
  | some i => (opchain, i)
  | none =>
    if type = .deleteRef then (opchain ++ [newOperation type ftag], opchain.length)
    else (newOperation type ftag :: opchain, 0)

/-- Identify the op of a target and update it in place; `none` when the update reports an error. -/
def updateOperation (opchain : List Opinfo) (type : OperationType) (ftag : Ftag)
    (update : Opinfo → Option Opinfo) : Option (List Opinfo) :=
  let (opchain, i) := processIdentifyoperation opchain type ftag
  match opchain[i]? with
  | some op => (update op).map (opchain.set i)
  | none => none

def countObject (ftag : Ftag) (op : Opinfo) : Option Opinfo :=
  if op.count + op.ftag.objno ≠ ftag.objno then none else some { op with count := op.count + 1 }

def deleteObject (opchain : List Opinfo) (ftag : Ftag) : Option (List Opinfo) :=
  updateOperation opchain .deleteObj ftag (countObject ftag)

/-! ## What an update does to a chain -/

/-- The reference deletion of a chain: `searchoperations` reuses whatever it finds first. -/
def delrefOp (opchain : List Opinfo) : Option Opinfo :=
  opchain.find? fun op => op.type == .deleteRef

def Opinfo.CoversObj (op : Opinfo) (objno : Nat) : Prop :=
  op.type = .deleteObj ∧ op.ftag.objno ≤ objno ∧ objno < op.ftag.objno + op.count

def Opinfo.CoversRef (op : Opinfo) (fileno : Nat) : Prop :=
  op.type = .deleteRef ∧ op.ftag.fileno ≤ fileno ∧ fileno < op.ftag.fileno + op.count

instance (op : Opinfo) (fileno : Nat) : Decidable (op.CoversRef fileno) := by
  unfold Opinfo.CoversRef; infer_instance

instance (op : Opinfo) (objno : Nat) : Decidable (op.CoversObj objno) := by
  unfold Opinfo.CoversObj; infer_instance

def DeletesObj (opchain : List Opinfo) (objno : Nat) : Prop := ∃ op ∈ opchain, op.CoversObj objno

@[simp] theorem deletesObj_nil (objno : Nat) : ¬ DeletesObj [] objno := by simp [DeletesObj]

theorem delrefOp_type {opchain : List Opinfo} {op : Opinfo} (h : delrefOp opchain = some op) :
    op.type = .deleteRef := by
  have := List.find?_some h
  simpa using this

theorem reusable_deleteRef (ftag : Ftag) : reusable .deleteRef ftag = fun op => op.type == .deleteRef := by
  funext op; simp [reusable]

def putDelref : List Opinfo → Opinfo → List Opinfo
  | [], new => [new]
  | op :: ops, new => if op.type = .deleteRef then new :: ops else op :: putDelref ops new

theorem processIdentifyoperation_cons (op : Opinfo) (ops : List Opinfo) (ftag : Ftag)
    (hop : op.type ≠ .deleteRef) :
    processIdentifyoperation (op :: ops) .deleteRef ftag =
      (op :: (processIdentifyoperation ops .deleteRef ftag).1,
        (processIdentifyoperation ops .deleteRef ftag).2 + 1) := by
  have hne : (op.type == .deleteRef) = false := by simpa using hop
  cases hs : List.findIdx? (fun op : Opinfo => op.type == .deleteRef) ops <;>
    simp [processIdentifyoperation, searchoperations, reusable_deleteRef, List.findIdx?_cons,
      hne, hs]

theorem updateOperation_deleteRef (opchain : List Opinfo) (ftag : Ftag) (update : Opinfo → Option Opinfo) :
    updateOperation opchain .deleteRef ftag update =
      (update ((delrefOp opchain).getD (newOperation .deleteRef ftag))).map
        (putDelref opchain) := by
  induction opchain with
  | nil =>
    cases h : update (newOperation .deleteRef ftag) <;>
      simp [updateOperation, processIdentifyoperation, searchoperations, putDelref, delrefOp, h]
  | cons op ops ih =>
    by_cases hop : op.type = .deleteRef
    · cases h : update op <;>
        simp [updateOperation, processIdentifyoperation, searchoperations, reusable, putDelref,
          delrefOp, List.findIdx?_cons, hop, h]
    · have hfind : delrefOp (op :: ops) = delrefOp ops := by simp [delrefOp, hop]
      have hput : putDelref (op :: ops) = List.cons op ∘ putDelref ops := by
        funext new; simp [putDelref, hop]
      rw [hfind, hput, ← Option.map_map, ← ih]
      simp only [updateOperation, processIdentifyoperation_cons op ops ftag hop,
        List.getElem?_cons_succ]
      cases (processIdentifyoperation ops .deleteRef ftag).1[
          (processIdentifyoperation ops .deleteRef ftag).2]? with
      | none => rfl
      | some old =>
        simp only [Option.map_map]
        rfl

theorem putDelref_ne_nil (opchain : List Opinfo) (op : Opinfo) : putDelref opchain op ≠ [] := by
  cases opchain with
  | nil => simp [putDelref]
  | cons a ops => simp only [putDelref]; split <;> simp

variable {op new : Opinfo} {opchain : List Opinfo} {ftag : Ftag}

theorem delrefOp_putDelref (opchain : List Opinfo) (hop : op.type = .deleteRef) :
    delrefOp (putDelref opchain op) = some op := by
  induction opchain with
  | nil => simp [putDelref, delrefOp, hop]
  | cons a ops ih =>
    by_cases ha : a.type = .deleteRef
    · simp [putDelref, delrefOp, ha, hop]
    · simpa [putDelref, delrefOp, ha] using ih

/-- Ops of other types are left alone. -/
theorem mem_putDelref (opchain : List Opinfo) (hnew : new.type = .deleteRef) (hop : op.type ≠ .deleteRef) :
    op ∈ putDelref opchain new ↔ op ∈ opchain := by
  have hne : op ≠ new := fun h => hop (h ▸ hnew)
  induction opchain with
  | nil => simp [putDelref, hne]
  | cons a ops ih =>
    by_cases ha : a.type = .deleteRef
    · have hna : op ≠ a := fun h => hop (h ▸ ha)
      simp [putDelref, ha, hne, hna]
    · simp [putDelref, ha, ih]

theorem deletesObj_putDelref (opchain : List Opinfo) (hnew : new.type = .deleteRef) (objno : Nat) :
    DeletesObj (putDelref opchain new) objno ↔ DeletesObj opchain objno := by
  have hmem : ∀ op : Opinfo, op.CoversObj objno →
      (op ∈ putDelref opchain new ↔ op ∈ opchain) := fun op hc =>
    mem_putDelref opchain hnew (by rw [hc.1]; decide)
  constructor
  · rintro ⟨op, hop, hc⟩
    exact ⟨op, (hmem op hc).1 hop, hc⟩
  · rintro ⟨op, hop, hc⟩
    exact ⟨op, (hmem op hc).2 hop, hc⟩

def delrefs (opchain : List Opinfo) : List Opinfo :=
  opchain.filter fun op => op.type == .deleteRef

/-- `searchoperations` reuses the one reference deletion a chain has, so that no second is ever
linked. -/
def OneDelref (opchain : List Opinfo) : Prop := (delrefs opchain).length ≤ 1

@[simp] theorem oneDelref_nil : OneDelref [] := by simp [OneDelref, delrefs]

/-- With at most one of them, the reference deletions are the one that is found. -/
theorem OneDelref.delrefs_eq (h : OneDelref opchain) : delrefs opchain = (delrefOp opchain).toList := by
  have hhead : delrefOp opchain = (delrefs opchain).head? := by
    simp [delrefOp, delrefs, List.head?_filter]
  rw [hhead]
  unfold OneDelref at h
  rcases hd : delrefs opchain with _ | ⟨op, _ | ⟨op', ops⟩⟩
  · rfl
  · rfl
  · simp [hd] at h

theorem OneDelref.putDelref (h : OneDelref opchain) (hnew : new.type = .deleteRef) :
    OneDelref (putDelref opchain new) := by
  have hlen : ∀ ops : List Opinfo,
      (delrefs (Rman.putDelref ops new)).length ≤ max 1 (delrefs ops).length := by
    intro ops
    induction ops with
    | nil => simp [Rman.putDelref, delrefs, hnew]
    | cons a ops ih =>
      by_cases ha : a.type = .deleteRef
      · simp [Rman.putDelref, delrefs, ha, hnew]
      · simpa [Rman.putDelref, delrefs, ha] using ih
  have := hlen opchain
  unfold OneDelref at h ⊢
  omega

/-! ## Object deletions -/

theorem reusable_deleteObj (h : reusable .deleteObj ftag op = true) :
    op.type = .deleteObj ∧ ftag.objno = op.ftag.objno + op.count := by
  simpa [reusable] using h

theorem coversObj_grow (hty : op.type = .deleteObj) (hend : ftag.objno = op.ftag.objno + op.count)
    (objno : Nat) : ({ op with count := op.count + 1 } : Opinfo).CoversObj objno ↔
      op.CoversObj objno ∨ objno = ftag.objno := by
  have hty' : ({ op with count := op.count + 1 } : Opinfo).type = .deleteObj := hty
  simp only [Opinfo.CoversObj, hty, hty', true_and]
  omega

theorem updateOperation_of_search {type : OperationType} {i : Nat}
    (hs : searchoperations opchain type ftag = some i) :
    ∃ before op after, opchain = before ++ op :: after ∧ reusable type ftag op = true ∧
      ∀ update, updateOperation opchain type ftag update =
        (update op).map fun new => before ++ new :: after := by
  obtain ⟨hi, hp, -⟩ := List.findIdx?_eq_some_iff_getElem.1 hs
  refine ⟨opchain.take i, opchain[i], opchain.drop (i + 1), ?_, hp, fun update => ?_⟩
  · simp
  · have hset : opchain.set i = fun new => opchain.take i ++ new :: opchain.drop (i + 1) := by
      funext new
      simp [List.set_eq_take_append_cons_drop, hi]
    simp [updateOperation, processIdentifyoperation, hs, hi, hset]

theorem countObject_isSome (opchain : List Opinfo) {type : OperationType} (ftag : Ftag)
    (htype : type = .deleteObj ∨ type = .rebuild) :
    (updateOperation opchain type ftag (countObject ftag)).isSome := by
  cases hs : searchoperations opchain type ftag with
  | none =>
    have hne : type ≠ .deleteRef := by rcases htype with rfl | rfl <;> decide
    simp [updateOperation, processIdentifyoperation, hs, hne, countObject, newOperation]
  | some i =>
    obtain ⟨before, op, after, rfl, hp, hupd⟩ := updateOperation_of_search hs
    have hend : ftag.objno = op.ftag.objno + op.count := by
      rcases htype with rfl | rfl <;> (simp [reusable] at hp; exact hp.2)
    have hsum : op.count + op.ftag.objno = ftag.objno := by omega
    simp [hupd, countObject, hsum]

theorem deleteObject_spec (opchain : List Opinfo) (ftag : Ftag) :
    ∃ opchain', deleteObject opchain ftag = some opchain' ∧ opchain' ≠ [] ∧
      delrefs opchain' = delrefs opchain ∧
      ∀ objno, DeletesObj opchain' objno ↔ DeletesObj opchain objno ∨ objno = ftag.objno := by
  cases hs : searchoperations opchain .deleteObj ftag with
  | none =>
    refine ⟨{ newOperation .deleteObj ftag with count := 1 } :: opchain, ?_, by simp, ?_, ?_⟩
    · simp [deleteObject, updateOperation, processIdentifyoperation, hs, countObject, newOperation]
    · simp [delrefs, newOperation, Opinfo.type, freshExtinfo]
    · intro objno
      have hnew : ({ newOperation .deleteObj ftag with count := 1 } : Opinfo).CoversObj objno ↔
          objno = ftag.objno := by
        simp [Opinfo.CoversObj, newOperation, Opinfo.type, freshExtinfo]
        omega
      simp [DeletesObj, hnew, or_comm]
  | some i =>
    obtain ⟨before, op, after, rfl, hp, hupd⟩ := updateOperation_of_search hs
    obtain ⟨hty, hend⟩ := reusable_deleteObj hp
    have hsum : op.count + op.ftag.objno = ftag.objno := by omega
    refine ⟨before ++ { op with count := op.count + 1 } :: after, ?_, by simp, ?_, ?_⟩
    · simp [deleteObject, hupd, countObject, hsum]
    · have hty' : ({ op with count := op.count + 1 } : Opinfo).type = .deleteObj := hty
      simp [delrefs, hty, hty']
    · intro objno
      simp only [DeletesObj, List.mem_append, List.mem_cons, or_and_right, exists_or,
        exists_eq_left, coversObj_grow hty hend]
      grind

/-! ## Effects of several updates -/

/-- The effect of a sequence of updates on a chain: the reference deletion it ends with, and the
objects whose deletion it added. -/
structure OpsEffect (ops ops' : List Opinfo) (pending : Option Opinfo) (deleted : Nat → Prop) :
    Prop where
  pending_eq : delrefOp ops' = pending
  one : OneDelref ops → OneDelref ops'
  deletes : ∀ objno, DeletesObj ops' objno ↔ DeletesObj ops objno ∨ deleted objno

namespace OpsEffect

variable {ops ops₁ ops' : List Opinfo}

theorem refl (ops : List Opinfo) : OpsEffect ops ops (delrefOp ops) fun _ => False :=
  ⟨rfl, id, by simp⟩

/-- Updates compose: the objects add up, and the later reference deletion stays. -/
theorem trans {pending₁ pending₂ : Option Opinfo} {deleted₁ deleted₂ : Nat → Prop}
    (h₁ : OpsEffect ops ops₁ pending₁ deleted₁) (h₂ : OpsEffect ops₁ ops' pending₂ deleted₂) :
    OpsEffect ops ops' pending₂ fun objno => deleted₁ objno ∨ deleted₂ objno :=
  ⟨h₂.pending_eq, fun h => h₂.one (h₁.one h), fun objno => by
    rw [h₂.deletes, h₁.deletes, or_assoc]⟩

theorem congr {pending : Option Opinfo} {deleted deleted' : Nat → Prop}
    (h : OpsEffect ops ops' pending deleted) (hd : ∀ objno, deleted objno ↔ deleted' objno) :
    OpsEffect ops ops' pending deleted' :=
  ⟨h.pending_eq, h.one, fun objno => by rw [h.deletes, hd]⟩

theorem put (ops : List Opinfo) {new : Opinfo} (hnew : new.type = .deleteRef) :
    OpsEffect ops (putDelref ops new) (some new) fun _ => False :=
  ⟨delrefOp_putDelref ops hnew, fun h => h.putDelref hnew, fun objno => by
    simpa using deletesObj_putDelref ops hnew objno⟩

end OpsEffect

theorem deleteObject_effect (ops : List Opinfo) (ftag : Ftag) :
    ∃ ops', deleteObject ops ftag = some ops' ∧ ops' ≠ [] ∧
      OpsEffect ops ops' (delrefOp ops) (· = ftag.objno) := by
  obtain ⟨ops', hdel, hne, hrefs, hobjs⟩ := deleteObject_spec ops ftag
  refine ⟨ops', hdel, hne, ?_, fun h => ?_, hobjs⟩
  · simp only [delrefOp, ← List.head?_filter]
    exact congrArg List.head? hrefs
  · simpa only [OneDelref, hrefs] using h

end Marfs.Rman
