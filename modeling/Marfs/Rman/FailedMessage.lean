import Marfs.Rman.Progress

/-!
# Messages that fail

`processopinfo` checks a message while it applies it: what it finds wrong with a later op comes after
the ops before it were counted.  A start message whose first op is in progress is not checked at all,
and where the chain in progress is shorter, the loop runs past its end.
-/

namespace Marfs.Rman

open Tagging

variable {lookup : List Char → Nat} {log : Resourcelog}

/-! ## The messages that leave the log alone -/

/-- The next op of a message is the one that follows in the chain in progress. -/
def nextMatches : List Opinfo → List Opinfo → Bool
  | nextop :: _, nextold :: _ => !(ftagCmp nextop.ftag nextold.ftag || nextop.type ≠ nextold.type)
  | _, _ => false

/-- A completion message fits the ops in progress: it completes one after the other, and of the last
one no more than is left. -/
def Fits : List Opinfo → List Opinfo → Prop
  | op :: ops, old :: olds =>
    if ops = [] then op.count ≤ old.count
    else op.count = old.count ∧ nextMatches ops olds ∧ Fits ops olds
  | _, _ => False

/-- A completion message is turned down at its first op: this one completes too much; or it completes
nothing, with no error to be recorded, and the message goes on with an op that is not the next one. -/
def TurnedDown : List Opinfo → List Opinfo → Prop
  | op :: ops, old :: olds =>
    old.count < op.count ∨
      op.count = 0 ∧ (op.errval = 0 ∨ op.errval = old.errval) ∧
        (old.count ≠ 0 ∨ nextMatches ops olds = false)
  | _, _ => True

/-- A message whose first op is in progress fits the chain there, or is turned down at once; a start
message is not longer than the chain. -/
def Fitting (lookup : List Char → Nat) (log : Resourcelog) (newop : List Opinfo) : Prop :=
  ∀ op ops found, newop = op :: ops → (∀ finop ∈ newop, finop.start = op.start) →
    searchNode op (log.inprogress (lookup op.ftag.streamid)) = some found →
      if op.start then newop.length ≤ found.tail.length
      else Fits newop found.tail ∨ TurnedDown newop found.tail

/-! ## Start messages -/

/-- The loop runs past the end of a shorter chain. -/
theorem restartOps_eq_none_iff (newop : List Opinfo) :
    ∀ (outstandingcnt : Int) (index : List Opinfo),
      restartOps outstandingcnt newop index = none ↔ index.length < newop.length := by
  induction newop with
  | nil =>
    intro outstandingcnt index
    simp [restartOps]
  | cons op ops ih =>
    intro outstandingcnt index
    cases index with
    | nil => simp [restartOps]
    | cons old olds =>
      rw [List.length_cons, List.length_cons, Nat.add_lt_add_iff_right, ← ih
        (if op.count > old.count && old.count = 0 then outstandingcnt + 1 else outstandingcnt) olds]
      simp only [restartOps, Option.bind_eq_bind]
      cases restartOps (if op.count > old.count && old.count = 0 then outstandingcnt + 1
        else outstandingcnt) ops olds with
      | none => simp
      | some rest => simp

/-! ## Completion messages -/

theorem OperationSummary.note_zero (summary : OperationSummary) (type : OperationType) :
    summary.note type 0 0 = summary := by
  cases type <;> rfl

variable {op old : Opinfo} {newop : List Opinfo} {node : Nat} {found : Found}

theorem Resourcelog.noteCompletion_eq_self (h : op.count = 0) : log.noteCompletion op = log := by
  have hfailures : (if op.errval ≠ 0 then op.count else 0) = 0 := by
    rw [h, ite_self]
  rw [noteCompletion, hfailures, h, OperationSummary.note_zero]

theorem Opinfo.complete_eq_self_iff (h : op.count ≤ old.count) :
    old.complete op = old ↔ op.count = 0 ∧ (op.errval = 0 ∨ op.errval = old.errval) := by
  constructor
  · intro hself
    have hcnt : old.count - op.count = old.count := congrArg Opinfo.count hself
    have herr : (if op.errval ≠ 0 then op.errval else old.errval) = old.errval :=
      congrArg Opinfo.errval hself
    refine ⟨by omega, ?_⟩
    by_cases hzero : op.errval = 0
    · exact .inl hzero
    · rw [if_pos hzero] at herr
      exact .inr herr
  · rintro ⟨hcnt, herr⟩
    have hkept : (if op.errval ≠ 0 then op.errval else old.errval) = old.errval := by
      rcases herr with hzero | hsame
      · rw [if_neg (by simpa using hzero)]
      · rw [hsame, ite_self]
    rw [complete, hkept, hcnt]
    rfl

section CompleteOps

variable {op old : Opinfo} {ops olds : List Opinfo}

theorem completeOps_excessive (h : old.count < op.count) :
    completeOps log (op :: ops) (old :: olds) = (log, old :: olds, .failed) := by
  rw [completeOps, if_pos h]

theorem completeOps_incomplete (h : op.count < old.count) :
    completeOps log (op :: ops) (old :: olds) =
      (log.noteCompletion op, old.complete op :: olds, if ops = [] then .incomplete else .failed) := by
  have hleft : (old.complete op).count ≠ 0 := Nat.sub_ne_zero_of_lt h
  rw [completeOps, if_neg (by omega)]
  dsimp only
  rw [if_pos hleft]

theorem complete_settled (h : op.count = old.count) : ¬ (old.complete op).count ≠ 0 :=
  not_not.2 (Nat.sub_eq_zero_of_le (Nat.le_of_eq h.symm))

theorem completeOps_last (h : op.count = old.count) :
    completeOps log [op] (old :: olds) =
      ({ log.noteCompletion op with outstandingcnt := log.outstandingcnt - 1 },
        old.complete op :: olds,
        .settled (old.complete op).errval (alikeActive op.type olds) olds.isEmpty) := by
  have hleft := complete_settled h
  rw [completeOps, if_neg (by omega)]
  dsimp only
  rw [if_neg hleft]
  rfl

theorem completeOps_mismatch (h : op.count = old.count) (hops : ops ≠ [])
    (hnext : nextMatches ops olds = false) :
    completeOps log (op :: ops) (old :: olds) =
      (log.noteCompletion op, old.complete op :: olds, .failed) := by
  have hleft := complete_settled h
  rw [completeOps, if_neg (by omega)]
  dsimp only
  rw [if_neg hleft]
  split
  · exact absurd rfl hops
  · rfl
  · rw [nextMatches, Bool.not_eq_false'] at hnext
    rw [if_pos hnext]

theorem completeOps_match (h : op.count = old.count) (hnext : nextMatches ops olds = true) :
    completeOps log (op :: ops) (old :: olds) =
      let (log', olds', completion) := completeOps
        { log.noteCompletion op with outstandingcnt := log.outstandingcnt - 1 } ops olds
      (log', old.complete op :: olds', completion) := by
  have hleft := complete_settled h
  rw [completeOps, if_neg (by omega)]
  dsimp only
  rw [if_neg hleft]
  split
  · cases hnext
  · cases hnext
  · rw [nextMatches, Bool.not_eq_true'] at hnext
    rw [if_neg (Bool.eq_false_iff.1 hnext)]
    rfl

end CompleteOps

theorem completeOps_head {ops olds : List Opinfo} (h : op.count ≤ old.count) :
    (completeOps log (op :: ops) (old :: olds)).2.1.head? = some (old.complete op) := by
  rcases Nat.lt_or_eq_of_le h with hlt | heq
  · rw [completeOps_incomplete hlt]
    rfl
  by_cases hops : ops = []
  · rw [hops, completeOps_last heq]
    rfl
  cases hnext : nextMatches ops olds with
  | false =>
    rw [completeOps_mismatch heq hops hnext]
    rfl
  | true =>
    rw [completeOps_match heq hnext]
    rfl

theorem completeOps_outstandingcnt_le (newop : List Opinfo) :
    ∀ (log : Resourcelog) (index : List Opinfo),
      (completeOps log newop index).1.outstandingcnt ≤ log.outstandingcnt := by
  induction newop with
  | nil =>
    intro log index
    exact Int.le_refl _
  | cons op ops ih =>
    intro log index
    cases index with
    | nil => exact Int.le_refl _
    | cons old olds =>
      have hset : log.outstandingcnt - 1 ≤ log.outstandingcnt := by omega
      rcases Nat.lt_trichotomy op.count old.count with hlt | heq | hgt
      · rw [completeOps_incomplete hlt]
        exact Int.le_refl _
      · by_cases hops : ops = []
        · rw [hops, completeOps_last heq]
          exact hset
        cases hnext : nextMatches ops olds with
        | false =>
          rw [completeOps_mismatch heq hops hnext]
          exact Int.le_refl _
        | true =>
          rw [completeOps_match heq hnext]
          exact Int.le_trans (ih _ olds) hset
      · exact Int.le_of_eq (by rw [completeOps_excessive hgt])

theorem completeOps_failed_iff (newop : List Opinfo) :
    ∀ (log : Resourcelog) (index : List Opinfo),
      (completeOps log newop index).2.2 = .failed ↔ ¬ Fits newop index := by
  induction newop with
  | nil =>
    intro log index
    simp [completeOps, Fits]
  | cons op ops ih =>
    intro log index
    cases index with
    | nil => simp [completeOps, Fits]
    | cons old olds =>
      rcases Nat.lt_trichotomy op.count old.count with hlt | heq | hgt
      · rw [completeOps_incomplete hlt, Fits]
        by_cases hops : ops = []
        · simp [hops, Nat.le_of_lt hlt]
        · simp [hops, Nat.ne_of_lt hlt]
      · by_cases hops : ops = []
        · rw [hops, completeOps_last heq, Fits]
          simp [heq]
        cases hnext : nextMatches ops olds with
        | false =>
          rw [completeOps_mismatch heq hops hnext, Fits]
          simp [hops, hnext]
        | true =>
          rw [completeOps_match heq hnext, Fits]
          simp [hops, hnext, heq, ih]
      · rw [completeOps_excessive hgt, Fits]
        simp [Nat.ne_of_gt hgt, hgt]

theorem completeOps_unchanged_iff {index : List Opinfo} (h : ¬ Fits newop index) :
    (completeOps log newop index).1 = log ∧ (completeOps log newop index).2.1 = index ↔
      TurnedDown newop index := by
  match newop, index with
  | [], index => exact iff_of_true ⟨rfl, rfl⟩ (by simp [TurnedDown])
  | _ :: _, [] => exact iff_of_true ⟨rfl, rfl⟩ (by simp [TurnedDown])
  | op :: ops, old :: olds =>
    rw [TurnedDown]
    by_cases hexc : old.count < op.count
    · rw [completeOps_excessive hexc]
      exact iff_of_true ⟨rfl, rfl⟩ (.inl hexc)
    have hle : op.count ≤ old.count := Nat.le_of_not_lt hexc
    rw [or_iff_right hexc]
    constructor
    · rintro ⟨hlog, hidx⟩
      have hself : old.complete op = old := by
        have hhead := @completeOps_head log op old ops olds hle
        rw [hidx] at hhead
        exact (Option.some.inj hhead).symm
      obtain ⟨hcount, herr⟩ := (Opinfo.complete_eq_self_iff hle).1 hself
      refine ⟨hcount, herr, ?_⟩
      by_contra hgoes
      rw [not_or, not_not, Bool.not_eq_false] at hgoes
      -- the first op was settled, and that stays
      rw [completeOps_match (hcount.trans hgoes.1.symm) hgoes.2] at hlog
      have hcnt := congrArg Resourcelog.outstandingcnt hlog
      have hle := completeOps_outstandingcnt_le ops
        { log.noteCompletion op with outstandingcnt := log.outstandingcnt - 1 } olds
      dsimp only at hcnt hle
      omega
    · rintro ⟨hcount, herr, hstops⟩
      have hself := (Opinfo.complete_eq_self_iff hle).2 ⟨hcount, herr⟩
      have hlog : log.noteCompletion op = log := Resourcelog.noteCompletion_eq_self hcount
      by_cases hzero : old.count = 0
      · have heq : op.count = old.count := hcount.trans hzero.symm
        have hops : ops ≠ [] := by
          rintro rfl
          apply h
          rw [Fits, if_pos rfl]
          exact hle
        rw [completeOps_mismatch heq hops (hstops.resolve_left (not_not.2 hzero)), hlog, hself]
        exact ⟨rfl, rfl⟩
      · rw [completeOps_incomplete (by omega), hlog, hself]
        exact ⟨rfl, rfl⟩

/-! ## Messages -/

theorem Resourcelog.setNode_eq_self_iff {log' : Resourcelog} {chains : List (List Opinfo)}
    (h : log'.inprogress = log.inprogress) :
    log'.setNode node chains = log ↔ log' = log ∧ chains = log.inprogress node := by
  constructor
  · intro hself
    have hnode := congrFun (congrArg Resourcelog.inprogress hself) node
    have hch : chains = log.inprogress node := by simpa [setNode] using hnode
    refine ⟨?_, hch⟩
    obtain ⟨type', outstandingcnt', summary', inprogress'⟩ := log'
    obtain ⟨type, outstandingcnt, summary, inprogress⟩ := log
    simp only [setNode, Resourcelog.mk.injEq] at hself h ⊢
    exact ⟨hself.1, hself.2.1, hself.2.2.1, h⟩
  · rintro ⟨rfl, rfl⟩
    have hsame : (fun i => if i = node then log'.inprogress node else log'.inprogress i) =
        log'.inprogress := by
      funext i
      split
      · next heq => rw [heq]
      · rfl
    rw [setNode, hsame]

theorem Found.put_inj {tail tail' : List Opinfo} : found.put tail = found.put tail' ↔ tail = tail' := by
  simp [put]

theorem processCompletion_unchanged_iff (hnode : log.inprogress node = found.put found.tail) :
    ((processCompletion log node found newop).result = .failed →
        (processCompletion log node found newop).log = log) ↔
      (Fits newop found.tail ∨ TurnedDown newop found.tail) := by
  have hframe := (completeOps_frame newop log found.tail).1
  have hfailed := completeOps_failed_iff newop log found.tail
  by_cases hfits : Fits newop found.tail
  · refine iff_of_true ?_ (.inl hfits)
    intro hres
    have hok : (completeOps log newop found.tail).2.2 ≠ .failed := fun h => hfailed.1 h hfits
    simp [processCompletion, hok] at hres
  · have hfail := hfailed.2 hfits
    have hlog : (processCompletion log node found newop).log =
        (completeOps log newop found.tail).1.setNode node
          (found.put (completeOps log newop found.tail).2.1) := by
      simp [processCompletion, hfail, Found.finishes]
    rw [hlog, Resourcelog.setNode_eq_self_iff hframe, hnode, Found.put_inj,
      completeOps_unchanged_iff hfits, or_iff_right hfits]
    refine ⟨fun h => h ?_, fun h _ => h⟩
    simp [processCompletion, hfail]

theorem processNew_unchanged (log : Resourcelog) (node : Nat) (newop : List Opinfo) (start : Bool) :
    (processNew log node newop start).result ≠ .crashed ∧
      ((processNew log node newop start).result = .failed →
        (processNew log node newop start).log = log) := by
  unfold processNew
  split
  · exact ⟨nofun, fun _ => rfl⟩
  · cases log.type with
    | modify => exact ⟨nofun, nofun⟩
    | record => exact ⟨nofun, nofun⟩

theorem processRestart_iff :
    ((processRestart log node found newop).result ≠ .crashed ∧
        ((processRestart log node found newop).result = .failed →
          (processRestart log node found newop).log = log)) ↔
      newop.length ≤ found.tail.length := by
  rw [← Nat.not_lt, ← restartOps_eq_none_iff newop log.outstandingcnt found.tail]
  unfold processRestart
  cases restartOps log.outstandingcnt newop found.tail with
  | none => exact iff_of_false (fun h => h.1 rfl) (not_not.2 rfl)
  | some rest => exact iff_of_true ⟨nofun, nofun⟩ nofun

/-- A message is not followed past the end of a chain, and leaves the log alone where it fails, exactly
if it is fitting. -/
theorem processopinfo_atomic_iff (lookup : List Char → Nat) (log : Resourcelog) (newop : List Opinfo) :
    ((processopinfo lookup log newop).result ≠ .crashed ∧
        ((processopinfo lookup log newop).result = .failed →
          (processopinfo lookup log newop).log = log)) ↔
      Fitting lookup log newop := by
  cases newop with
  | nil =>
    refine iff_of_true ⟨?_, fun _ => rfl⟩ ?_
    · intro h
      cases h
    · intro op ops found h
      cases h
  | cons op ops =>
    have hfitting : Fitting lookup log (op :: ops) ↔
        ((∀ finop ∈ op :: ops, finop.start = op.start) → ∀ found,
          searchNode op (log.inprogress (lookup op.ftag.streamid)) = some found →
            if op.start then (op :: ops).length ≤ found.tail.length
            else Fits (op :: ops) found.tail ∨ TurnedDown (op :: ops) found.tail) := by
      constructor
      · intro h hstart found hfound
        exact h op ops found rfl hstart hfound
      · intro h op' ops' found heq hstart hfound
        cases heq
        exact h hstart found hfound
    rw [hfitting]
    unfold processopinfo
    dsimp only
    split
    · next hstart =>
      refine iff_of_true ⟨?_, fun _ => rfl⟩ fun hall => ?_
      · intro h
        cases h
      obtain ⟨finop, hmem, hne⟩ := List.any_eq_true.1 hstart
      exact absurd (hall finop hmem) (of_decide_eq_true hne)
    next hstart =>
    have hall : ∀ finop ∈ op :: ops, finop.start = op.start := by
      simpa using hstart
    cases hfound : searchNode op (log.inprogress (lookup op.ftag.streamid)) with
    | none =>
      refine iff_of_true (processNew_unchanged ..) fun _ found h => ?_
      cases h
    | some found =>
      simp only [Option.some.injEq, forall_eq']
      rw [imp_iff_right hall]
      split
      · exact processRestart_iff
      · rw [← processCompletion_unchanged_iff (searchNode_some _ hfound).1]
        refine and_iff_right ?_
        simp only [processCompletion]
        split <;> simp

/-- Two object deletions and a reference deletion are in progress. -/
def sampleLog : Resourcelog := (processopinfo (fun _ => 0) (.init .modify)
  [sampleDelobj 0 true 0, sampleDelobj 1 true 0, sampleDelref true]).log

/-- The second completion counts too much, and the first one was counted before; a start message of
two ops for the last one runs past the end of the chain. -/
theorem sampleLog_halfApplied :
    (processopinfo (fun _ => 0) sampleLog
        [sampleDelobj 0 false 0, { sampleDelobj 1 false 0 with count := 2 }]).result = .failed ∧
      (processopinfo (fun _ => 0) sampleLog
        [sampleDelobj 0 false 0, { sampleDelobj 1 false 0 with count := 2 }]).log ≠ sampleLog ∧
      (processopinfo (fun _ => 0) sampleLog
        [sampleDelref true, sampleDelref true]).result = .crashed := by
  refine ⟨by decide, ?_, by decide⟩
  intro h
  have hcnt := congrArg Resourcelog.outstandingcnt h
  revert hcnt
  decide

end Marfs.Rman
