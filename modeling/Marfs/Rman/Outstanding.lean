import Mathlib.Algebra.BigOperators.Group.Finset.Basic
import Mathlib.Algebra.BigOperators.Group.Finset.Piecewise
import Mathlib.Algebra.BigOperators.Ring.Finset
import Mathlib.Algebra.Order.BigOperators.Group.Finset
import Marfs.Rman.Progress

/-!
# The outstanding count

`resourcelog_term` refuses to end a log whose outstanding count is not zero.  The count follows the
ops and not their targets: an op awaits its completion from its start, or from a re-issue after it
was done, until a completion leaves nothing of its count.  A started op of count zero, as the
reference deletion of a walk can be, awaits a completion too, although nothing of it remains.

For such an op the remaining count does not tell whether its completion came.  The log trusts its
callers that it is completed once, and with its chain (`Awaiting.Regular`); the count is then
the number of ops that await a completion (`outstanding_exact`).
-/

namespace Marfs.Rman

open Tagging List

variable {lookup : List Char → Nat} {log : Resourcelog}

/-! ## Ending a log -/

/-- The outcomes of `resourcelog_term`: refused with `EAGAIN`; failed on the log file; or done, with
the summary, and whether the log was preserved due to errors. -/
inductive Termination where
  | again
  | failed
  | done (summary : OperationSummary) (preserved : Bool)
  deriving DecidableEq, Repr

def OperationSummary.errpresent (summary : OperationSummary) : Bool :=
  summary.deletionObjectFailures ≠ 0 || summary.deletionReferenceFailures ≠ 0 ||
    summary.rebuildFailures ≠ 0 || summary.repackFailures ≠ 0

/-- `resourcelog_term`.  `closes` and `unlinks` say whether the log file can be closed, and
deleted. -/
def resourcelogTerm (closes unlinks : Bool) (log : Resourcelog) (delete : Bool) : Termination :=
  if log.outstandingcnt ≠ 0 then .again
  else if !closes then .failed
  else if !log.summary.errpresent && delete && !unlinks then .failed
  else .done log.summary log.summary.errpresent

/-! ## Awaiting a completion -/

/-- Which ops of the chains in progress await a completion, by node. -/
abbrev Awaiting := Nat → List (List Bool)

/-- The flags of a chain after a completion message: an op of which nothing remains is done. -/
def completeFlags : List Opinfo → List Opinfo → List Bool → List Bool
  | op :: ops, old :: olds, flag :: flags =>
    (flag && op.count ≠ old.count) :: completeFlags ops olds flags
  | _, _, flags => flags

/-- The flags of a chain after a start message: a higher count is a re-issue. -/
def restartFlags : List Opinfo → List Opinfo → List Bool → List Bool
  | op :: ops, old :: olds, flag :: flags =>
    (flag || op.count > old.count) :: restartFlags ops olds flags
  | _, _, flags => flags

/-- An op of which nothing remains is only completed while it awaits that. -/
def regularCompletion : List Opinfo → List Opinfo → List Bool → Bool
  | _ :: ops, old :: olds, flag :: flags =>
    (old.count ≠ 0 || flag) && regularCompletion ops olds flags
  | _, _, _ => true

def regularRestart : List Opinfo → List Opinfo → List Bool → Bool
  | op :: ops, old :: olds, flag :: flags =>
    (old.count ≠ 0 || op.count = 0 || !flag) && regularRestart ops olds flags
  | _, _, _ => true

namespace Found

def flags (found : Found) (rows : List (List Bool)) : List Bool := rows.getD found.before.length []

def preFlags (found : Found) (rows : List (List Bool)) : List Bool :=
  (found.flags rows).take found.pre.length

def tailFlags (found : Found) (rows : List (List Bool)) : List Bool :=
  (found.flags rows).drop found.pre.length

def putFlags (found : Found) (rows : List (List Bool)) (chain : Option (List Bool)) :
    List (List Bool) :=
  rows.take found.before.length ++ (chain.toList ++ rows.drop (found.before.length + 1))

end Found

def Awaiting.setNode (awaiting : Awaiting) (node : Nat) (rows : List (List Bool)) : Awaiting :=
  fun i => if i = node then rows else awaiting i

def Awaiting.message (awaiting : Awaiting) (lookup : List Char → Nat) (log : Resourcelog)
    (newop : List Opinfo) : Awaiting :=
  match newop with
  | [] => awaiting
  | op :: _ =>
    let node := lookup op.ftag.streamid
    let rows := awaiting node
    match searchNode op (log.inprogress node) with
    | none => awaiting.setNode node (rows ++ [newop.map fun _ => true])
    | some found =>
      if op.start then
        awaiting.setNode node <| found.putFlags rows <|
          some (found.preFlags rows ++ restartFlags newop found.tail (found.tailFlags rows))
      else
        awaiting.setNode node <| found.putFlags rows <|
          if found.finishes (completeOps log newop found.tail).2.2 then none
          else some (found.preFlags rows ++ completeFlags newop found.tail (found.tailFlags rows))

/-- What the log trusts its callers with.  An op of which nothing remains is completed while it
awaits that, and re-issued with a higher count once it is done; and when the rest of its chain is
completed, it is done. -/
def Awaiting.Regular (awaiting : Awaiting) (lookup : List Char → Nat) (log : Resourcelog)
    (newop : List Opinfo) : Prop :=
  ∀ op ∈ newop.head?, ∀ found ∈ searchNode op (log.inprogress (lookup op.ftag.streamid)),
    if op.start then
      regularRestart newop found.tail (found.tailFlags (awaiting (lookup op.ftag.streamid))) = true
    else
      regularCompletion newop found.tail
          (found.tailFlags (awaiting (lookup op.ftag.streamid))) = true ∧
        (found.finishes (completeOps log newop found.tail).2.2 = true →
          true ∉ found.preFlags (awaiting (lookup op.ftag.streamid)))

inductive Accepts (lookup : List Char → Nat) : Resourcelog → Awaiting → Prop
  | init : Accepts lookup (Resourcelog.init .modify) fun _ => []
  | message {log awaiting} (h : Accepts lookup log awaiting) (newop : List Opinfo)
      (haccept : (processopinfo lookup log newop).result = .ok)
      (hregular : awaiting.Regular lookup log newop) :
      Accepts lookup (processopinfo lookup log newop).log (awaiting.message lookup log newop)

/-! ## The flags of a chain -/

/-- An op of which something remains awaits a completion. -/
def Marks (flag : Bool) (op : Opinfo) : Prop := op.count ≠ 0 → flag = true

/-- How many ops of a node await a completion. -/
def awaited (rows : List (List Bool)) : Nat := (rows.map (count true)).sum

@[simp] theorem awaited_nil : awaited [] = 0 := rfl

@[simp] theorem awaited_cons (row : List Bool) (rows : List (List Bool)) :
    awaited (row :: rows) = row.count true + awaited rows := by
  simp [awaited]

@[simp] theorem awaited_append (rows rows' : List (List Bool)) :
    awaited (rows ++ rows') = awaited rows + awaited rows' := by
  simp [awaited]

theorem count_true_cons (flag : Bool) (flags : List Bool) :
    (flag :: flags).count true = flag.toNat + flags.count true := by
  cases flag <;> simp [Nat.add_comm]

theorem completeOps_outstanding (newop : List Opinfo) :
    ∀ (log : Resourcelog) (index : List Opinfo) (flags : List Bool),
      Forall₂ Marks flags index → regularCompletion newop index flags = true →
      (completeOps log newop index).2.2 ≠ .failed →
      (completeOps log newop index).1.outstandingcnt + flags.count true =
          log.outstandingcnt + (completeFlags newop index flags).count true ∧
        Forall₂ Marks (completeFlags newop index flags) (completeOps log newop index).2.1 := by
  induction newop with
  | nil =>
    intro log index flags _ _ hok
    simp [completeOps] at hok
  | cons op ops ih =>
    intro log index flags hmarks hreg hok
    cases hmarks with
    | nil => simp [completeOps] at hok
    | @cons flag old flags olds hhead hrest =>
      simp only [regularCompletion, Bool.and_eq_true, Bool.or_eq_true, decide_eq_true_eq] at hreg
      obtain ⟨hflag, hreg⟩ := hreg
      have hset : flag = true := by
        by_cases hzero : old.count = 0
        · exact hflag.resolve_left (fun h => h hzero)
        · exact hhead hzero
      unfold completeOps at hok ⊢
      by_cases hexc : op.count > old.count
      · simp [hexc] at hok
      simp only [if_neg hexc] at hok ⊢
      by_cases hne : op.count ≠ old.count
      · have hleft : (old.complete op).count ≠ 0 := by
          simp only [Opinfo.complete]
          omega
        simp only [if_pos hleft] at hok ⊢
        -- the message ends here
        obtain rfl : ops = [] := by
          by_contra hops
          simp [hops] at hok
        refine ⟨by simp [completeFlags, hne, Resourcelog.noteCompletion], ?_⟩
        exact .cons (fun _ => by simp [hset, hne]) (by simpa [completeFlags] using hrest)
      · have hdone : ¬ (old.complete op).count ≠ 0 := by
          simp only [Opinfo.complete]
          omega
        have hmark : Marks (flag && decide (op.count ≠ old.count)) (old.complete op) :=
          fun h => absurd h hdone
        simp only [if_neg hdone] at hok ⊢
        rw [completeFlags, count_true_cons, count_true_cons]
        cases ops with
        | nil =>
          refine ⟨?_, .cons hmark (by simpa [completeFlags] using hrest)⟩
          simp only [completeFlags, hset, hne, decide_false, Bool.and_false, Bool.toNat_true,
            Bool.toNat_false, Resourcelog.noteCompletion]
          omega
        | cons nextop ops =>
          cases hrest with
          | nil => simp at hok
          | @cons nextflag nextold flags olds hnext hrest =>
            dsimp only at hok ⊢
            by_cases hcmp : (ftagCmp nextop.ftag nextold.ftag || nextop.type ≠ nextold.type) = true
            · rw [if_pos hcmp] at hok
              exact absurd rfl hok
            rw [if_neg hcmp] at hok ⊢
            obtain ⟨hcnt, hmarks⟩ := ih _ _ _ (.cons hnext hrest) hreg hok
            refine ⟨?_, .cons hmark hmarks⟩
            simp only [hset, hne, decide_false, Bool.and_false, Bool.toNat_true, Bool.toNat_false,
              Resourcelog.noteCompletion] at hcnt ⊢
            omega

variable {newop : List Opinfo} {awaiting : Awaiting} {rows : List (List Bool)}
  {chains : List (List Opinfo)}

/-- A message that completes the last op of a chain leaves no op from the match on that awaits a
completion. -/
theorem completeFlags_last {index tail : List Opinfo} {errval : Int} {activealike : Bool} {flags : List Bool}
    (hlen : flags.length = index.length) (h : Settles newop index tail errval activealike true) :
    (completeFlags newop index flags).count true = 0 := by
  obtain ⟨cur, rest, rfl, -, hcnts, -, hlast, -⟩ := h.spec
  obtain rfl : rest = [] := by simpa using hlast.symm
  rw [append_nil] at hlen ⊢
  clear hlast h
  induction hcnts generalizing flags with
  | nil => simp_all [completeFlags]
  | cons hcnt _ ih =>
    cases flags with
    | nil => simp at hlen
    | cons flag flags =>
      rw [completeFlags, count_true_cons, ih (by simpa using hlen)]
      simp [hcnt]

theorem restartOps_outstanding (newop : List Opinfo) :
    ∀ {outstandingcnt outstandingcnt' : Int} {index tail : List Opinfo} {flags : List Bool},
      restartOps outstandingcnt newop index = some (outstandingcnt', tail) →
      Forall₂ Marks flags index → regularRestart newop index flags = true →
      outstandingcnt' + flags.count true =
          outstandingcnt + (restartFlags newop index flags).count true ∧
        Forall₂ Marks (restartFlags newop index flags) tail := by
  induction newop with
  | nil =>
    intro outstandingcnt _ index tail flags hst hmarks _
    simp only [restartOps, Option.some.injEq, Prod.mk.injEq] at hst
    obtain ⟨rfl, rfl⟩ := hst
    simpa [restartFlags] using hmarks
  | cons op ops ih =>
    intro outstandingcnt _ index tail flags hst hmarks hreg
    cases hmarks with
    | nil => cases hst
    | @cons flag old flags olds hhead hrest =>
      simp only [restartOps, Option.bind_eq_bind, Option.bind_eq_some_iff, Option.some.injEq,
        Prod.mk.injEq] at hst
      obtain ⟨⟨cnt, olds'⟩, holds, rfl, rfl⟩ := hst
      simp only [regularRestart, Bool.and_eq_true, Bool.or_eq_true, Bool.not_eq_true',
        decide_eq_true_eq] at hreg
      obtain ⟨hflag, hreg⟩ := hreg
      obtain ⟨hcnt, hmarks⟩ := ih holds hrest hreg
      rw [restartFlags, count_true_cons, count_true_cons]
      by_cases hreset : op.count > old.count
      · by_cases hzero : old.count = 0
        · -- the re-issue of an op that is done
          obtain rfl : flag = false := by
            rcases hflag with (h | h) | h
            · exact absurd hzero h
            · omega
            · exact h
          rw [if_pos (by simp [hzero]; omega)] at hcnt
          refine ⟨by simp [hreset]; omega, .cons (fun _ => by simp [hreset]) hmarks⟩
        · obtain rfl : flag = true := hhead hzero
          rw [if_neg (by simp [hzero])] at hcnt
          refine ⟨by simp; omega, .cons (fun _ => by simp) hmarks⟩
      · rw [if_neg (by simp [hreset])] at hcnt
        refine ⟨by simp [hreset]; omega, .cons ?_ hmarks⟩
        simpa [hreset] using hhead

/-! ## The table -/

/-- The outstanding count is the number of flags, whatever nodes are looked at besides those in use,
and an op of which something remains awaits a completion. -/
structure Exact (log : Resourcelog) (awaiting : Awaiting) : Prop where
  marks : ∀ node, Forall₂ (Forall₂ Marks) (awaiting node) (log.inprogress node)
  finite : ∃ nodes : Finset Nat, ∀ node ∉ nodes, awaiting node = []
  outstandingcnt_eq : ∀ nodes : Finset Nat, (∀ node ∉ nodes, awaiting node = []) →
    log.outstandingcnt = ∑ node ∈ nodes, (awaited (awaiting node) : Int)

theorem Exact.setNode {log' : Resourcelog} (h : Exact log awaiting) (hlog : log'.inprogress = log.inprogress)
    {node : Nat} (hmarks : Forall₂ (Forall₂ Marks) rows chains)
    (hcnt : log'.outstandingcnt + awaited (awaiting node) = log.outstandingcnt + awaited rows) :
    Exact (log'.setNode node chains) (awaiting.setNode node rows) where
  marks i := by
    by_cases hi : i = node
    · simpa [Awaiting.setNode, Resourcelog.setNode, hi] using hmarks
    · simpa [Awaiting.setNode, Resourcelog.setNode, hi, hlog] using h.marks i
  finite := by
    obtain ⟨nodes, hnodes⟩ := h.finite
    refine ⟨insert node nodes, fun i hi => ?_⟩
    simp only [Finset.mem_insert, not_or] at hi
    simpa [Awaiting.setNode, hi.1] using hnodes i hi.2
  outstandingcnt_eq nodes hnodes := by
    have hrows : node ∉ nodes → awaited rows = 0 := fun hnode => by
      have := hnodes node hnode
      simp only [Awaiting.setNode, if_true] at this
      simp [this]
    have hold := h.outstandingcnt_eq (insert node nodes) fun i hi => by
      simp only [Finset.mem_insert, not_or] at hi
      simpa [Awaiting.setNode, hi.1] using hnodes i hi.2
    have hnew : ∑ i ∈ nodes, (awaited (awaiting.setNode node rows i) : Int) =
        ∑ i ∈ insert node nodes, (awaited (awaiting.setNode node rows i) : Int) := by
      refine (Finset.sum_insert_of_eq_zero_if_notMem fun hnode => ?_).symm
      simp [Awaiting.setNode, hrows hnode]
    have hrest : ∑ i ∈ (insert node nodes).erase node, (awaited (awaiting.setNode node rows i) : Int) =
        ∑ i ∈ (insert node nodes).erase node, (awaited (awaiting i) : Int) := by
      refine Finset.sum_congr rfl fun i hi => ?_
      simp [Awaiting.setNode, Finset.ne_of_mem_erase hi]
    change log'.outstandingcnt = _
    rw [← Finset.add_sum_erase _ _ (Finset.mem_insert_self node nodes)] at hold
    rw [hnew, ← Finset.add_sum_erase _ _ (Finset.mem_insert_self node nodes), hrest]
    simp only [Awaiting.setNode, if_true]
    omega

theorem Found.putFlags_marks {found : Found} {op : Opinfo} (h : Forall₂ (Forall₂ Marks) rows chains)
    (hsrch : searchNode op chains = some found) :
    Forall₂ Marks (found.preFlags rows) found.pre ∧
      Forall₂ Marks (found.tailFlags rows) found.tail ∧
      found.preFlags rows ++ found.tailFlags rows = found.flags rows ∧
      (∀ chain, awaited (found.putFlags rows chain) + (found.flags rows).count true =
        awaited rows + (chain.getD []).count true) ∧
      Forall₂ (Forall₂ Marks) (found.putFlags rows none) found.remove ∧
      ∀ flags tail, Forall₂ Marks flags (found.pre ++ tail) →
        Forall₂ (Forall₂ Marks) (found.putFlags rows (some flags)) (found.put tail) := by
  obtain ⟨rfl, -⟩ := searchNode_some _ hsrch
  have hbef := forall₂_take_append _ _ _ h
  have hdrop := forall₂_drop_append _ _ _ h
  have hrows := take_append_drop found.before.length rows
  cases hd : rows.drop found.before.length with
  | nil =>
    rw [hd] at hdrop
    cases hdrop
  | cons flags after =>
    rw [hd] at hdrop hrows
    obtain ⟨hchain, hafter⟩ := forall₂_cons.1 hdrop
    have hflags : found.flags rows = flags := by
      rw [Found.flags, getD_eq_getElem?_getD, ← head?_drop, hd]
      rfl
    have hrest : rows.drop (found.before.length + 1) = after := by
      rw [← tail_drop, hd]
      rfl
    simp only [Found.preFlags, Found.tailFlags, hflags, Found.putFlags, hrest]
    refine ⟨forall₂_take_append _ _ _ hchain, forall₂_drop_append _ _ _ hchain,
      take_append_drop _ _, fun chain => ?_, rel_append hbef hafter,
      fun row tail hrow => rel_append hbef (.cons hrow hafter)⟩
    have hcnt := congrArg awaited hrows
    simp only [awaited_append, awaited_cons] at hcnt ⊢
    cases chain with
    | none => simp; omega
    | some row => simp; omega

theorem Exact.message (h : Exact log awaiting) (htype : log.type = .modify)
    (hacc : (processopinfo lookup log newop).result = .ok) (hreg : awaiting.Regular lookup log newop) :
    Exact (processopinfo lookup log newop).log (awaiting.message lookup log newop) := by
  cases newop with
  | nil => cases hacc
  | cons op ops =>
    have hreg := hreg op rfl
    unfold processopinfo at hacc ⊢
    unfold Awaiting.message
    dsimp only at hacc ⊢
    by_cases hany : ((op :: ops).any fun finop => finop.start ≠ op.start) = true
    · rw [if_pos hany] at hacc
      cases hacc
    rw [if_neg hany] at hacc ⊢
    have hnode := h.marks (lookup op.ftag.streamid)
    cases hsrch : searchNode op (log.inprogress (lookup op.ftag.streamid)) with
    | none =>
      simp only [hsrch, processNew] at hacc ⊢
      cases hst : op.start with
      | false => simp [hst] at hacc
      | true =>
        simp only [Bool.not_true, Bool.false_eq_true, if_false, htype]
        have hfresh : Forall₂ Marks ((op :: ops).map fun _ => true) (op :: ops) := by
          rw [forall₂_map_left_iff]
          exact forall₂_same.2 fun _ _ _ => rfl
        refine h.setNode ?_ (rel_append hnode (.cons hfresh .nil)) ?_
        · rfl
        have hcount : ((op :: ops).map fun _ => true).count true = (op :: ops).length := by
          rw [map_const', count_replicate_self]
        simp only [awaited_append, awaited_cons, awaited_nil, hcount]
        push_cast
        omega
    | some found =>
      obtain ⟨hpre, htail, hflags, hcount, hremove, hput⟩ :=
        Found.putFlags_marks hnode hsrch
      have hreg := hreg found hsrch
      have hspl := congrArg (count true) hflags
      rw [count_append] at hspl
      simp only [hsrch] at hacc ⊢
      cases hst : op.start with
      | true =>
        simp only [hst, if_true, processRestart] at hacc hreg ⊢
        cases hrestart : restartOps log.outstandingcnt (op :: ops) found.tail with
        | none => simp [hrestart] at hacc
        | some result =>
          obtain ⟨outstandingcnt, tail⟩ := result
          obtain ⟨hcnt, hmarks⟩ := restartOps_outstanding _ hrestart htail hreg
          refine h.setNode ?_ (hput _ _ (rel_append hpre hmarks)) ?_
          · rfl
          have := hcount (some (found.preFlags (awaiting (lookup op.ftag.streamid)) ++
            restartFlags (op :: ops) found.tail
              (found.tailFlags (awaiting (lookup op.ftag.streamid)))))
          simp only [Option.getD_some, count_append] at this
          dsimp only
          omega
      | false =>
        simp only [hst, Bool.false_eq_true, if_false, processCompletion] at hacc hreg ⊢
        have hok : (completeOps log (op :: ops) found.tail).2.2 ≠ .failed := by
          intro hfail
          rw [if_pos hfail] at hacc
          cases hacc
        obtain ⟨hcnt, hmarks⟩ := completeOps_outstanding _ log _ _ htail hreg.1 hok
        by_cases hfin : found.finishes (completeOps log (op :: ops) found.tail).2.2 = true
        · simp only [if_pos hfin]
          refine h.setNode (completeOps_frame _ _ _).1 hremove ?_
          have hlast : (completeFlags (op :: ops) found.tail
              (found.tailFlags (awaiting (lookup op.ftag.streamid)))).count true = 0 := by
            cases hcompletion : (completeOps log (op :: ops) found.tail).2.2 with
            | failed => exact absurd hcompletion hok
            | incomplete => simp [hcompletion, Found.finishes] at hfin
            | settled errval activealike last =>
              simp only [hcompletion, Found.finishes, Bool.and_eq_true] at hfin
              obtain ⟨-, rfl⟩ := hfin
              exact completeFlags_last htail.length_eq
                (completeOps_settled _ (Prod.ext rfl (Prod.ext rfl hcompletion)))
          have hidle := count_eq_zero.2 (hreg.2 hfin)
          have := hcount none
          simp only [Option.getD_none, count_nil] at this
          omega
        · simp only [if_neg hfin]
          refine h.setNode (completeOps_frame _ _ _).1 (hput _ _ (rel_append hpre hmarks)) ?_
          have := hcount (some (found.preFlags (awaiting (lookup op.ftag.streamid)) ++
            completeFlags (op :: ops) found.tail
              (found.tailFlags (awaiting (lookup op.ftag.streamid)))))
          simp only [Option.getD_some, count_append] at this
          omega

theorem Accepts.exact (h : Accepts lookup log awaiting) : log.type = .modify ∧ Exact log awaiting := by
  induction h with
  | init => exact ⟨rfl, fun _ => .nil, ⟨∅, fun _ _ => rfl⟩, fun _ _ => by simp [Resourcelog.init]⟩
  | message _ newop hacc hreg ih =>
    exact ⟨(processopinfo_type lookup _ newop).trans ih.1, ih.2.message ih.1 hacc hreg⟩

theorem awaited_eq_zero : awaited rows = 0 ↔ ∀ row ∈ rows, true ∉ row := by
  induction rows with
  | nil => simp
  | cons row rows ih => simp [ih, count_eq_zero]

theorem Exact.outstandingcnt_eq_zero (h : Exact log awaiting) :
    log.outstandingcnt = 0 ↔ ∀ node, ∀ row ∈ awaiting node, true ∉ row := by
  obtain ⟨nodes, hnodes⟩ := h.finite
  rw [h.outstandingcnt_eq nodes hnodes, ← Nat.cast_sum, Int.natCast_eq_zero, Finset.sum_eq_zero_iff]
  simp only [awaited_eq_zero]
  refine ⟨fun hzero node => ?_, fun hidle node _ => hidle node⟩
  by_cases hnode : node ∈ nodes
  · exact hzero node hnode
  · simp [hnodes node hnode]

/-! ## The count -/

/-- How many ops of a node have something of their count left. -/
def remaining (chains : List (List Opinfo)) : Nat :=
  (chains.map (countP fun op => op.count ≠ 0)).sum

/-- The start of a walk's reference deletion that deletes no reference. -/
def zeroDelref (start : Bool) : Opinfo := { sampleDelref start with count := 0 }

/-- The log counts an op of count zero as outstanding, although nothing of it remains. -/
theorem zeroDelref_outstanding :
    (processopinfo (fun _ => 0) (Resourcelog.init .modify) [zeroDelref true]).result = .ok ∧
      ¬ ∀ nodes : Finset Nat,
        (∀ node ∉ nodes, (processopinfo (fun _ => 0) (Resourcelog.init .modify)
          [zeroDelref true]).log.inprogress node = []) →
        (processopinfo (fun _ => 0) (Resourcelog.init .modify)
          [zeroDelref true]).log.outstandingcnt =
          ∑ node ∈ nodes, (remaining ((processopinfo (fun _ => 0) (Resourcelog.init .modify)
            [zeroDelref true]).log.inprogress node) : Int) := by
  refine ⟨by decide, fun hexact => ?_⟩
  have hzero := hexact {0} fun node hnode => by
    have hne : node ≠ 0 := by simpa using hnode
    change (if node = 0 then _ else _) = _
    rw [if_neg hne]
    rfl
  revert hzero
  decide

/-- In every run of a `MODIFY` log over chains that are accepted, the outstanding count is the number
of ops in the table that await a completion: every op with a remaining count, and an op of count
zero until its completion.  It is never negative, and `resourcelog_term` is refused exactly while an
op awaits a completion. -/
theorem outstanding_exact (h : Accepts lookup log awaiting) :
    (∀ node, Forall₂ (Forall₂ fun flag op => op.count ≠ 0 → flag = true) (awaiting node)
        (log.inprogress node)) ∧
      (∀ nodes : Finset Nat, (∀ node ∉ nodes, log.inprogress node = []) →
        log.outstandingcnt = ∑ node ∈ nodes, (awaited (awaiting node) : Int)) ∧
      0 ≤ log.outstandingcnt ∧
      ∀ closes unlinks delete : Bool, resourcelogTerm closes unlinks log delete = .again ↔
        ∃ node, ∃ row ∈ awaiting node, true ∈ row := by
  obtain ⟨-, hexact⟩ := h.exact
  refine ⟨hexact.marks, fun nodes hnodes => ?_, ?_, fun closes unlinks delete => ?_⟩
  · refine hexact.outstandingcnt_eq nodes fun node hnode => ?_
    have hrows := hexact.marks node
    rw [hnodes node hnode] at hrows
    exact forall₂_nil_right_iff.1 hrows
  · obtain ⟨nodes, hnodes⟩ := hexact.finite
    rw [hexact.outstandingcnt_eq nodes hnodes]
    exact Finset.sum_nonneg fun node _ => by omega
  · have hagain : resourcelogTerm closes unlinks log delete = .again ↔ log.outstandingcnt ≠ 0 := by
      unfold resourcelogTerm
      by_cases hzero : log.outstandingcnt = 0
      · rw [if_neg (not_not.2 hzero)]
        split <;> try split
        all_goals simp [hzero]
      · simp [hzero]
    rw [hagain, Ne, hexact.outstandingcnt_eq_zero]
    simp only [not_forall, not_not, exists_prop]

/-- An object deletion and a reference deletion of count zero, completed one after the other. -/
theorem zeroDelref_exact :
    let messages := [[sampleDelobj 0 true 0, zeroDelref true], [sampleDelobj 0 false 0]]
    let log := (runMessages (fun _ => 0) (Resourcelog.init .modify, fun _ => []) messages).1
    log.outstandingcnt = 1 ∧ resourcelogTerm true true log true = .again := by
  have h₁ := Accepts.message (Accepts.init : Accepts (fun _ => 0) _ _)
    [sampleDelobj 0 true 0, zeroDelref true] (by decide) (by
      intro op hop found hfound
      cases hfound)
  have h₂ := h₁.message [sampleDelobj 0 false 0] (by decide) (by
    intro op hop found hfound
    obtain rfl := Option.some.inj hop
    obtain rfl := Option.some.inj hfound
    decide)
  obtain ⟨-, hcnt, -, hterm⟩ := outstanding_exact h₂
  refine ⟨?_, (hterm true true true).2 ⟨0, [false, true], by decide, by decide⟩⟩
  have := hcnt {0} fun node hnode => by
    have hne : node ≠ 0 := by simpa using hnode
    change (if node = 0 then _ else if node = 0 then _ else _) = _
    rw [if_neg hne, if_neg hne]
    rfl
  exact this.trans (by decide)

end Marfs.Rman
