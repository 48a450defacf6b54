import Marfs.Rman.Packages
import Marfs.Rman.ProducerSpec

/-!
# The log of a chain whose packages are run

`Holds` relates the log to the pieces of a chain that are still on their way, as `Tracks` does for
GC chains and their errors: every op has what those pieces amount to outstanding.  The completion of
a piece keeps that up (`Holds.complete`), whatever comes behind the pieces; so does a message about
another chain (`Holds.foreign`); and the completion of the whole rest removes the chain
(`Holds.completeWhole`).
-/

namespace Marfs.Rman

open Tagging List

variable {lookup : List Char → Nat}

/-! ## The completion of ops as a whole -/

def Opinfo.CompletedBy (w op : Opinfo) : Prop :=
  w.ftag = op.ftag ∧ w.type = op.type ∧ w.count = op.count

theorem completeOps_whole (ops : List Opinfo) :
    ∀ (log : Resourcelog) (whole : List Opinfo), Forall₂ Opinfo.CompletedBy whole ops → ops ≠ [] →
      (∃ tail errval, (completeOps log ops whole).2 = (tail, .settled errval false true)) ∧
        (completeOps log ops whole).1.outstandingcnt = log.outstandingcnt - ops.length := by
  induction ops with
  | nil => exact fun _ _ _ hne => absurd rfl hne
  | cons op ops ih =>
    intro log whole hwhl _
    cases hwhl with
    | @cons old _ olds _ hold holds =>
      have hcnt : ¬ op.count > old.count := by rw [hold.2.2]; omega
      have hdone : ¬ (old.complete op).count ≠ 0 := by simp [Opinfo.complete, hold.2.2]
      unfold completeOps
      rw [if_neg hcnt]
      dsimp only
      rw [if_neg hdone]
      cases holds with
      | nil =>
        refine ⟨⟨_, _, rfl⟩, ?_⟩
        simp [Resourcelog.noteCompletion]
      | @cons nextold nextop olds ops hnext hrest =>
        have hcmp : ¬ (ftagCmp nextop.ftag nextold.ftag || nextop.type ≠ nextold.type) = true := by
          simp [ftagCmp, hnext.1, hnext.2.1]
        obtain ⟨⟨tail, errval, hcompleted⟩, hout⟩ :=
          ih { log.noteCompletion op with
            outstandingcnt := (log.noteCompletion op).outstandingcnt - 1 }
            (nextold :: olds) (.cons hnext hrest) (cons_ne_nil _ _)
        dsimp only at hcompleted hout ⊢
        rw [if_neg hcmp]
        refine ⟨⟨old.complete op :: tail, errval, ?_⟩, ?_⟩
        · exact congrArg (fun rest => (old.complete op :: rest.1, rest.2)) hcompleted
        · rw [hout]
          simp only [Resourcelog.noteCompletion, length_cons, Nat.cast_add, Nat.cast_one]
          omega

theorem processopinfo_whole {log : Resourcelog} {before after : List (List Opinfo)}
    {pre whole ops : List Opinfo} {op : Opinfo} (hbef : ∀ other ∈ before, Misses op other)
    (hstr : onStream op (pre ++ whole) = true) (hpre : ∀ old ∈ pre, old.type ≠ op.type ∧ old.count = 0)
    (hwhl : Forall₂ Opinfo.CompletedBy whole (op :: ops)) (hst : ∀ op' ∈ op :: ops, op'.start = false)
    (hlog : log.inprogress (lookup op.ftag.streamid) = before ++ (pre ++ whole) :: after) :
    let processed := processopinfo lookup log (op :: ops)
    processed.result = .ok ∧
      processed.log.inprogress (lookup op.ftag.streamid) = before ++ after ∧
      processed.log.outstandingcnt = log.outstandingcnt - (op :: ops).length := by
  intro processed
  have hact : (pre.any fun op => decide (op.count ≠ 0)) = false := by
    simpa using fun old hold => (hpre old hold).2
  obtain ⟨w, ws, rfl⟩ : ∃ w ws, whole = w :: ws := by
    cases hwhl with
    | cons _ _ => exact ⟨_, _, rfl⟩
  have hmatch : w.matches op = true := by
    cases hwhl with
    | cons hw _ => exact matches_iff.2 ⟨by rw [hw.1], by rw [hw.1], hw.2.1⟩
  have hmiss : ∀ old ∈ pre, old.matches op = false := by
    intro old hold
    by_contra hyes
    exact (hpre old hold).1 (matches_iff.1 (by simpa using hyes)).2.2
  have hfound : searchChain op [] false false (pre ++ w :: ws) =
      some { before := [], pre := pre, tail := w :: ws, after := []
             activechain := false, activealike := false } := by
    rw [searchChain_skip _ _ _ _ _ hmiss, alike_of_ne fun old hold => (hpre old hold).1, hact,
      searchChain, if_pos hmatch]
    simp
  have hprocessed : processed = processCompletion log (lookup op.ftag.streamid)
      { before := before, pre := pre, tail := w :: ws, after := after
        activechain := false, activealike := false } (op :: ops) := by
    have hany : ((op :: ops).any fun finop => decide (finop.start ≠ false)) = false := by
      rw [any_eq_false]
      intro op' hop'
      simp [hst op' hop']
    simp only [processed, processopinfo, hst op (mem_cons_self ..), hany, hlog,
      searchNode_found hbef hstr hfound rfl, Bool.false_eq_true, if_false]
  obtain ⟨⟨tail, errval, hdone⟩, hout⟩ :=
    completeOps_whole (op :: ops) log (w :: ws) hwhl (cons_ne_nil _ _)
  rw [hprocessed]
  unfold processCompletion
  generalize completeOps log (op :: ops) (w :: ws) = completed at hdone hout
  obtain ⟨log', tail', completion⟩ := completed
  obtain ⟨rfl, rfl⟩ := Prod.mk.inj hdone
  exact ⟨by simp, by simp [Found.finishes, Found.remove, Resourcelog.setNode], hout⟩

/-! ## The pieces of a chain -/

variable {chain : OpChain}

namespace OpChain

def Has (chain : OpChain) (op : Opinfo) : Prop := ∃ d ∈ chain.pieces, d.SameTarget op

def awaited (chain : OpChain) (pending : List Opinfo) : Nat :=
  chain.pieces.countP fun d => outstanding pending d ≠ 0

theorem Has.type {op : Opinfo} (h : chain.Has op) : op.type = chain.kind.pieceType := by
  obtain ⟨d, hd, htgt⟩ := h
  rw [← htgt.2]
  exact chain.piece_type d hd

theorem ne_type {d w : Opinfo} (hd : d.type = chain.kind.pieceType) (hw : w ∈ chain.whole) :
    w.type ≠ d.type := by
  rw [chain.whole_type w hw, hd]
  cases chain.kind <;> decide

theorem awaited_congr {pending pending' : List Opinfo}
    (h : ∀ d, outstanding pending' d = outstanding pending d) :
    chain.awaited pending' = chain.awaited pending := by
  simp only [awaited, h]

end OpChain

structure PieceEntry (pending : List Opinfo) (d old : Opinfo) : Prop where
  target : d.SameTarget old
  count : old.count = outstanding pending d

def Holds (chain : OpChain) (pending : List Opinfo) (chains : List (List Opinfo)) : Prop :=
  ∃ before cur after, chains = before ++ (cur ++ chain.whole) :: after ∧
    (∀ op ∈ chain.ops, ∀ other ∈ before, Misses op other) ∧
    Forall₂ (PieceEntry pending) chain.pieces cur

namespace Holds

variable {pending : List Opinfo} {log : Resourcelog} {op : Opinfo}

theorem congr {pending' : List Opinfo} {chains : List (List Opinfo)} (h : Holds chain pending chains)
    (heq : ∀ d, outstanding pending' d = outstanding pending d) : Holds chain pending' chains := by
  obtain ⟨before, cur, after, hch, hbef, hcur⟩ := h
  refine ⟨before, cur, after, hch, hbef, hcur.imp fun d old hent => ?_⟩
  exact ⟨hent.target, hent.count.trans (heq d).symm⟩

theorem foreign (h : Holds chain pending (log.inprogress (lookup chain.streamid))) {message : List Opinfo}
    (hfor : chain.Foreign message) :
    Holds chain pending
      ((processopinfo lookup log message).log.inprogress (lookup chain.streamid)) := by
  obtain ⟨before, cur, after, hch, hbef, hcur⟩ := h
  have hmiss := Misses.foreign
    (rel_append (hcur.imp fun _ _ hent => hent.target) (forall₂_sameTarget_refl _))
    chain.stream hfor
  obtain ⟨before', after', hlog, hbef'⟩ := processopinfo_misses message hch hmiss
  exact ⟨before', cur, after', hlog, fun d hd => hbef' d (hbef d hd), hcur⟩

theorem onStream_of {cur : List Opinfo} (hcur : Forall₂ (PieceEntry pending) chain.pieces cur)
    (hop : op.ftag.ctag = chain.ctag ∧ op.ftag.streamid = chain.streamid) (hne : cur ++ chain.whole ≠ []) :
    onStream op (cur ++ chain.whole) = true := by
  have hstr : ∀ o ∈ cur ++ chain.whole, o.ftag.ctag = chain.ctag ∧
      o.ftag.streamid = chain.streamid := by
    intro o ho
    rcases mem_append.1 ho with ho | ho
    · obtain ⟨e, he, hent⟩ := forall₂_mem_right hcur ho
      rw [← hent.target.1]
      exact chain.stream e (mem_append_left _ he)
    · exact chain.stream o (mem_append_right _ ho)
  exact onStream_of_mem hne hstr hop

theorem complete (h : Holds chain (op :: pending) (log.inprogress (lookup chain.streamid)))
    (hpcs : ∀ piece ∈ op :: pending, chain.Has piece ∧ 0 < piece.count) (hst : op.start = false)
    (hunbr : op.type = .deleteObj →
      ∀ found, searchNode op (log.inprogress (lookup op.ftag.streamid)) = some found →
        ¬ found.Breaks op) : let processed := processopinfo lookup log [op]
    processed.result = .ok ∧
      (pending ≠ [] ∨ chain.whole ≠ [] →
        Holds chain pending (processed.log.inprogress (lookup chain.streamid))) ∧
      processed.log.outstandingcnt =
        log.outstandingcnt + chain.awaited pending - chain.awaited (op :: pending) ∧
      ∃ progress, processed.progress = some progress ∧ (pending ≠ [] → progress = 0) ∧
        (pending = [] → chain.whole ≠ [] → progress = 1) := by
  intro processed
  obtain ⟨before, cur, after, hch, hbef, hcur⟩ := h
  obtain ⟨⟨d, hd, htgt⟩, hpos⟩ := hpcs op (mem_cons_self ..)
  have hnode : lookup op.ftag.streamid = lookup chain.streamid := by
    rw [← htgt.1, (chain.stream d (mem_append_left _ hd)).2]
  obtain ⟨d₁, d₂, c₁, old, c₂, hops, rfl, h₁, hold, h₂⟩ := forall₂_split hcur hd
  have hmatch : op.matches d = true := htgt.matches
  have hoth := others_miss hmatch (hops ▸ chain.distinct)
  have hsame : ∀ e ∈ d₁ ++ d₂, outstanding (op :: pending) e = outstanding pending e := by
    intro e he
    rw [outstanding_cons, hoth e he]
    simp
  have hcnt : old.count = op.count + outstanding pending d := by
    rw [hold.count, outstanding_cons, if_pos hmatch]
  have hentries : Forall₂ (PieceEntry pending) chain.pieces (c₁ ++ old.complete op :: c₂) := by
    rw [hops]
    refine rel_append ?_ (.cons ⟨hold.target, ?_⟩ ?_)
    · refine forall₂_of_mem h₁ fun e he o hent => ⟨hent.target, ?_⟩
      exact hent.count.trans (hsame e (mem_append_left _ he))
    · simp only [Opinfo.complete]
      omega
    · refine forall₂_of_mem h₂ fun e he o hent => ⟨hent.target, ?_⟩
      exact hent.count.trans (hsame e (mem_append_right _ he))
  have htypes : ∀ o ∈ c₁ ++ c₂, o.type = op.type := by
    intro o ho
    have hmem : o ∈ c₁ ++ old :: c₂ := by
      simp only [mem_append, mem_cons] at ho ⊢
      exact ho.imp_right .inr
    obtain ⟨e, he, hent⟩ := forall₂_mem_right hcur hmem
    rw [← hent.target.2, ← htgt.2, chain.piece_type e he, chain.piece_type d hd]
  have hrest : ∀ w ∈ chain.whole, w.type ≠ op.type := by
    intro w hw
    rw [← htgt.2]
    exact OpChain.ne_type (chain.piece_type d hd) hw
  have hmeets : MeetsPiece op before c₁ old c₂ chain.whole := by
    refine ⟨fun other hoth => (hbef d (mem_append_left _ hd) other hoth).of_target htgt,
      ?_, fun o ho => ⟨?_, htypes o (mem_append_left _ ho)⟩,
      (matches_congr (matches_iff.2 ?_) hmatch).trans (matches_refl d),
      fun o ho => htypes o (mem_append_right _ ho), hrest⟩
    · have hstr := chain.stream d (mem_append_left _ hd)
      rw [htgt.1] at hstr
      have hon := onStream_of hcur hstr (by simp)
      cases c₁ with
      | nil => simpa [onStream] using hon
      | cons head rest => simpa [onStream] using hon
    · obtain ⟨e, he, hent⟩ := forall₂_mem_right h₁ ho
      rw [matches_congr (hent.target.matches) (matches_refl op), matches_comm]
      exact hoth e (mem_append_left _ he)
    · rw [← hold.target.1, ← hold.target.2]
      exact ⟨rfl, rfl, rfl⟩
  have hset := settled_iff hentries (fun _ _ hent => hent.count) fun piece hpiece =>
    hpcs piece (mem_cons_of_mem _ hpiece)
  have hzero : (old.complete op).count = 0 ↔ op.count = old.count := by
    simp only [Opinfo.complete]
    omega
  rw [← hnode] at hch ⊢
  obtain ⟨hok, hlog, hout, hprog⟩ :=
    hmeets.processopinfo hch hst (by omega)
  refine ⟨hok, fun hleft => ?_, ?_, _, hprog, fun hpend => ?_, fun hpend hwhl => ?_⟩
  · -- the chain is removed only with its last op
    refine ⟨before, _, after, ?_, hbef, hentries⟩
    rw [hlog, if_neg]
    · simp
    · rintro ⟨hdone, hpre, hemp⟩
      obtain ⟨hpost, hwhl⟩ := append_eq_nil_iff.1 hemp
      refine hleft.elim (fun hne => hne (hset.2 ?_)) fun hne => hne hwhl
      intro o ho
      rw [hpost, mem_append, mem_singleton] at ho
      rcases ho with ho | rfl
      · exact hpre o ho
      · exact hzero.2 hdone
  · -- one op less is awaited if this was its last piece
    have hawaited : ∀ pending', chain.awaited pending' =
        (d₁ ++ d₂).countP (fun e => outstanding pending' e ≠ 0) +
          if outstanding pending' d ≠ 0 then 1 else 0 := by
      intro pending'
      rw [OpChain.awaited, hops, countP_append, countP_append, countP_cons]
      simp only [decide_eq_true_eq]
      omega
    have hoths : (d₁ ++ d₂).countP (fun e => outstanding (op :: pending) e ≠ 0) =
        (d₁ ++ d₂).countP fun e => outstanding pending e ≠ 0 := by
      refine countP_congr fun e he => ?_
      rw [hsame e he]
    have hwas : outstanding (op :: pending) d ≠ 0 := by
      rw [outstanding_cons, if_pos hmatch]
      omega
    rw [hout, hawaited, hawaited, hoths, if_pos hwas]
    by_cases hleft : outstanding pending d = 0
    · rw [if_pos (by omega), if_neg (by omega)]
      omega
    · rw [if_neg (by omega), if_pos hleft]
      omega
  · -- something is pending
    rw [if_pos]
    by_contra hnone
    simp only [not_or, not_not, any_eq_true, decide_eq_true_eq, not_exists, not_and] at hnone
    refine hpend (hset.2 fun o ho => ?_)
    rw [mem_append, mem_cons] at ho
    rcases ho with ho | rfl | ho
    · exact hnone.2 o (mem_append_left _ ho)
    · exact hzero.2 hnone.1
    · exact hnone.2 o (mem_append_right _ ho)
  · -- the last piece, without an error
    have hall := hset.1 hpend
    have hdone : op.count = old.count := hzero.1 (hall _ (by simp))
    have hgc : op.type = .deleteObj := by
      rw [← htgt.2, chain.piece_type d hd]
      have hshape := chain.shape
      cases hkind : chain.kind with
      | gc => rfl
      | rebuild => rw [hkind] at hshape; exact absurd hshape.2 hwhl
      | repack => rw [hkind] at hshape; rw [hshape.1] at hd; cases hd
    have hsrch := hmeets.search after
    rw [← hch] at hsrch
    have hclean : (old.complete op).errval = 0 := by
      by_contra herr
      refine hunbr hgc _ hsrch ⟨old, c₂ ++ chain.whole, rfl, hdone, herr, ?_⟩
      intro other hoth' htype
      rw [mem_append, mem_append] at hoth'
      rcases hoth' with ho | ho | ho
      · exact hall other (by simp [ho])
      · exact hall other (by simp [ho])
      · exact absurd (htype.trans hgc.symm) (hrest other ho)
    rw [if_neg, if_pos hclean]
    rintro (hne | hany)
    · exact hne hdone
    · obtain ⟨o, ho, hcnt'⟩ := any_eq_true.1 hany
      rw [decide_eq_true_eq] at hcnt'
      refine hcnt' (hall o ?_)
      simp only [mem_append, mem_cons] at ho ⊢
      exact ho.imp_right .inr

theorem completeWhole {ops : List Opinfo} (h : Holds chain [] (log.inprogress (lookup chain.streamid)))
    (hwhl : Forall₂ Opinfo.CompletedBy chain.whole ops) (hne : ops ≠ [])
    (hst : ∀ op ∈ ops, op.start = false) : let processed := processopinfo lookup log ops
    processed.result = .ok ∧
      processed.log.outstandingcnt = log.outstandingcnt - chain.whole.length := by
  intro processed
  obtain ⟨before, cur, after, hch, hbef, hcur⟩ := h
  obtain ⟨op, ops, rfl⟩ := exists_cons_of_ne_nil hne
  obtain ⟨w, hw, hdone⟩ := forall₂_mem_right hwhl (mem_cons_self ..)
  have hstr := chain.stream w (mem_append_right _ hw)
  rw [hdone.1] at hstr
  have hwhole_ne : cur ++ chain.whole ≠ [] :=
    fun hnil => ne_nil_of_mem hw (append_eq_nil_iff.1 hnil).2
  have hcnts : ∀ old ∈ cur, old.type ≠ op.type ∧ old.count = 0 := by
    intro old hold
    obtain ⟨d, hd, hent⟩ := forall₂_mem_right hcur hold
    refine ⟨?_, hent.count⟩
    rw [← hent.target.2, ← hdone.2.1]
    exact (OpChain.ne_type (chain.piece_type d hd) hw).symm
  rw [← hstr.2] at hch
  obtain ⟨hok, -, hout⟩ := processopinfo_whole
    (fun other hoth => (hbef w (mem_append_right _ hw) other hoth).of_target
      ⟨hdone.1, hdone.2.1⟩)
    (onStream_of hcur hstr hwhole_ne) hcnts hwhl hst hch
  refine ⟨hok, ?_⟩
  rw [hout, hwhl.length_eq]

end Holds

end Marfs.Rman
