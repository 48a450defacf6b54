import Marfs.Rman.PackageLog

/-!
# Every op of a chain is completed once

While pieces of a chain are on their way, the producer, the packages and the executions hold them,
and the log what they amount to (`Dispatch.Working`).  The completion that leaves none hands on one
copy of what comes behind the pieces (`Dispatch.Resting`), and the completion of that copy ends the
chain (`Dispatch.Finished`).  Every step keeps this up (`Dispatch.Inv.step`), so the chain of every run
is accounted for (`reaches_accounted`), as long as no error makes a worker skip reference deletions:
a skipped op is logged as one that starts, which completes nothing (`skipped_unaccounted`).
-/

namespace Marfs.Rman

open Tagging List

variable {lookup : List Char → Nat} {chain : OpChain}

/-! ## Executions -/

variable {ops rest queued sent : List Opinfo} {op : Opinfo} {i : Nat} {action : Dispatch.Action}

theorem Outcome.execute_completes (outcome : Outcome)
    (h : ∀ op ∈ ops.head?, op.type = .deleteRef → outcome.reftable = 0) :
    Forall₂ Opinfo.CompletedBy ops (outcome.execute ops) ∧
      ∀ op ∈ outcome.execute ops, op.start = false := by
  cases ops with
  | nil => exact ⟨.nil, by simp [execute]⟩
  | cons op ops =>
    have htable : ¬ (op.type = .deleteRef ∧ outcome.reftable ≠ 0) := by
      rintro ⟨htype, hne⟩
      exact hne (h op rfl htype)
    rw [execute, if_neg htable]
    refine ⟨?_, ?_⟩
    · rw [forall₂_iff_get]
      refine ⟨by simp, fun i h₁ h₂ => ?_⟩
      simp only [get_eq_getElem, getElem_mapIdx]
      exact ⟨rfl, rfl, rfl⟩
    · intro op' hop'
      obtain ⟨i, hi, rfl⟩ := mem_mapIdx.1 hop'
      rfl

theorem Outcome.execute_piece (outcome : Outcome) (h : op.type ≠ .deleteRef) :
    outcome.execute [op] = [op.executed (outcome.errval 0)] := by
  rw [execute, if_neg fun hboth => h hboth.1]
  rfl

/-! ## Where the ops are -/

def OpChain.onQueue (chain : OpChain) (ops : List Opinfo) : Queues :=
  match chain.kind with
  | .gc => { gcops := ops }
  | .rebuild => { rebuildops := ops }
  | .repack => { repackops := ops }

@[simp] theorem OpChain.onQueue_nil (chain : OpChain) : chain.onQueue [] = {} := by
  unfold onQueue
  split <;> rfl

theorem OpChain.onQueue_eq_nil (h : chain.onQueue ops = {}) : ops = [] := by
  unfold onQueue at h
  split at h
  · exact congrArg Queues.gcops h
  · exact congrArg Queues.rebuildops h
  · exact congrArg Queues.repackops h

theorem OpChain.queues_of (chain : OpChain) : Queues.of chain.ops = chain.onQueue chain.ops := by
  cases hops : chain.ops with
  | nil => simp [Queues.of]
  | cons op ops =>
    have hop : op ∈ chain.pieces ++ chain.whole := by
      change op ∈ chain.ops
      rw [hops]
      exact mem_cons_self ..
    have hshape := chain.shape
    rw [Queues.of, onQueue]
    cases hkind : chain.kind with
    | gc =>
      rcases mem_append.1 hop with hop | hop
      · rw [chain.piece_type op hop, hkind]
        rfl
      · rw [chain.whole_type op hop, hkind]
        rfl
    | rebuild =>
      rw [hkind] at hshape
      rw [hshape.2, append_nil] at hop
      rw [chain.piece_type op hop, hkind]
      rfl
    | repack =>
      rw [hkind] at hshape
      rw [hshape.1, nil_append] at hop
      rw [chain.whole_type op hop, hkind]
      rfl

/-- Pieces are on their way: with the producer (`rest`), in packages (`queued`), or executed but not
logged (`sent`). -/
structure Dispatch.Working (lookup : List Char → Nat) (chain : OpChain) (outstandingcnt : Int)
    (s : Dispatch) (rest queued sent : List Opinfo) : Prop where
  queues : s.queues = chain.onQueue (if rest = [] then [] else rest ++ chain.whole)
  ready : s.ready = queued.map fun op => { ops := op :: chain.whole, abortops := false }
  running : s.running =
    sent.map fun op => { message := [op], nextop := chain.whole, abortops := false }
  pieces : ∀ op ∈ rest ++ queued ++ sent, chain.Has op ∧ 0 < op.count
  executed : ∀ op ∈ sent, op.start = false
  completed : ∀ op ∈ s.completed, chain.Has op
  counts : ∀ d ∈ chain.pieces,
    outstanding (rest ++ queued ++ sent) d + outstanding s.completed d = d.count
  holds : Holds chain (rest ++ queued ++ sent) (s.log.inprogress (lookup chain.streamid))
  outstandingcnt_eq : s.log.outstandingcnt = outstandingcnt + s.others +
    chain.awaited (rest ++ queued ++ sent) + chain.whole.length
  pending : rest ++ queued ++ sent ≠ []

/-- Where the copy of the rest is: still with the producer, of a chain without pieces; in a package;
or executed but not logged. -/
inductive Dispatch.RestCopy (chain : OpChain) (s : Dispatch) : Prop
  | held (queues : s.queues = chain.onQueue chain.whole) (ready : s.ready = [])
      (running : s.running = [])
  | waiting (queues : s.queues = {})
      (ready : s.ready = [{ ops := chain.whole, abortops := false }]) (running : s.running = [])
  | executed (message : List Opinfo) (queues : s.queues = {}) (ready : s.ready = [])
      (running : s.running = [{ message := message, nextop := [], abortops := false }])
      (completes : Forall₂ Opinfo.CompletedBy chain.whole message)
      (start : ∀ op ∈ message, op.start = false)

structure Dispatch.Resting (lookup : List Char → Nat) (chain : OpChain) (outstandingcnt : Int)
    (s : Dispatch) : Prop where
  rest : s.RestCopy chain
  whole_ne : chain.whole ≠ []
  completed : ∀ op ∈ s.completed, chain.Has op
  counts : ∀ d ∈ chain.pieces, outstanding s.completed d = d.count
  holds : Holds chain [] (s.log.inprogress (lookup chain.streamid))
  outstandingcnt_eq : s.log.outstandingcnt = outstandingcnt + s.others + chain.whole.length

/-- All packages have been run. -/
structure Dispatch.Finished (chain : OpChain) (outstandingcnt : Int) (s : Dispatch) : Prop where
  done : s.Done
  completed : ∃ pieces whole, s.completed = pieces ++ whole ∧ (∀ op ∈ pieces, chain.Has op) ∧
    (∀ d ∈ chain.pieces, outstanding pieces d = d.count) ∧
    Forall₂ Opinfo.CompletedBy chain.whole whole
  outstandingcnt_eq : s.log.outstandingcnt = outstandingcnt + s.others

inductive Dispatch.Phase (lookup : List Char → Nat) (chain : OpChain) (outstandingcnt : Int)
    (s : Dispatch) : Prop
  | working (rest queued sent : List Opinfo)
      (h : s.Working lookup chain outstandingcnt rest queued sent)
  | resting (h : s.Resting lookup chain outstandingcnt)
  | finished (h : s.Finished chain outstandingcnt)

/-- What every step keeps. -/
structure Dispatch.Inv (lookup : List Char → Nat) (chain : OpChain) (outstandingcnt : Int)
    (s : Dispatch) : Prop where
  phase : s.Phase lookup chain outstandingcnt
  accepted : s.failed = false
  freed : s.refreed = false

variable {s s' : Dispatch} {outstandingcnt : Int} {log : Resourcelog}

/-- The invariant is all that was asked for. -/
theorem Dispatch.Inv.accounted (h : s.Inv lookup chain outstandingcnt) :
    s.Accounted chain outstandingcnt := by
  have hfin : s.Done → s.Finished chain outstandingcnt := by
    rintro ⟨hqs, hrdy, hrun⟩
    cases h.phase with
    | working rest queued sent h =>
      rw [h.queues] at hqs
      rw [h.ready, map_eq_nil_iff] at hrdy
      rw [h.running, map_eq_nil_iff] at hrun
      have hnil := OpChain.onQueue_eq_nil hqs
      have hrest : rest = [] := by
        by_contra hne
        rw [if_neg hne] at hnil
        exact hne (append_eq_nil_iff.1 hnil).1
      exact absurd (by rw [hrest, hrdy, hrun]; rfl) h.pending
    | resting h =>
      cases h.rest with
      | held hqs' _ _ =>
        rw [hqs'] at hqs
        exact absurd (OpChain.onQueue_eq_nil hqs) h.whole_ne
      | waiting _ hrdy' _ => rw [hrdy'] at hrdy; cases hrdy
      | executed _ _ _ hrun' _ _ => rw [hrun'] at hrun; cases hrun
    | finished h => exact h
  refine ⟨h.accepted, h.freed, fun hdone => ?_, fun hdone => (hfin hdone).outstandingcnt_eq⟩
  obtain ⟨pieces, whole, hcompleted, hrest⟩ := (hfin hdone).completed
  exact ⟨pieces, whole, hcompleted ▸ .refl _, hrest⟩

/-! ## Every step keeps the invariant -/

theorem OpChain.outstanding_self (chain : OpChain) {d : Opinfo} (hd : d ∈ chain.pieces) :
    outstanding chain.pieces d = d.count := by
  have hdist := chain.distinct
  obtain ⟨d₁, d₂, hops⟩ := append_of_mem hd
  rw [hops, pairwise_append, pairwise_cons] at hdist
  rw [hops, outstanding_append, outstanding_cons, if_pos (matches_refl d),
    outstanding_eq_zero fun op hop => hdist.2.2 op hop d (mem_cons_self ..),
    outstanding_eq_zero fun op hop => by rw [matches_comm]; exact hdist.2.1.1 op hop]
  omega

theorem OpChain.awaited_self (chain : OpChain) : chain.awaited chain.pieces = chain.pieces.length := by
  rw [awaited, countP_eq_length]
  intro d hd
  have := chain.count_pos d hd
  rw [chain.outstanding_self hd, decide_eq_true_eq]
  omega

theorem OpChain.processopinfo_start (hfresh : chain.Fresh lookup log) :
    (processopinfo lookup log chain.ops).log.inprogress (lookup chain.streamid) =
        log.inprogress (lookup chain.streamid) ++ [chain.ops] ∧
      (processopinfo lookup log chain.ops).log.outstandingcnt =
        log.outstandingcnt + chain.ops.length := by
  have hne : chain.ops ≠ [] := by
    have hshape := chain.shape
    intro hnil
    obtain ⟨hpcs, hwhl⟩ := append_eq_nil_iff.1 hnil
    cases hkind : chain.kind with
    | gc => rw [hkind] at hshape; exact hshape hwhl
    | rebuild => rw [hkind] at hshape; exact hshape.1 hpcs
    | repack => rw [hkind] at hshape; exact hshape.2 hwhl
  obtain ⟨op, ops, hops⟩ := exists_cons_of_ne_nil hne
  have hop : op ∈ chain.ops := by rw [hops]; exact mem_cons_self ..
  have hst : ∀ op' ∈ op :: ops, op'.start = true := by
    rw [← hops]
    exact chain.start
  have hany : ((op :: ops).any fun finop => decide (finop.start ≠ true)) = false := by
    rw [any_eq_false]
    intro op' hop'
    simp [hst op' hop']
  have hstr := (chain.stream op hop).2
  have hsrch := hfresh.2 op hop
  rw [hops]
  simp only [processopinfo, hst op (mem_cons_self ..), hany, Bool.false_eq_true, if_false, hstr,
    hsrch]
  simp [processNew, hfresh.1, Resourcelog.setNode]

theorem Dispatch.Inv.init (hfresh : chain.Fresh lookup log) :
    (Dispatch.init lookup log chain.ops).Inv lookup chain log.outstandingcnt := by
  obtain ⟨hlog, hout⟩ := OpChain.processopinfo_start hfresh
  have hbef : ∀ op ∈ chain.ops, ∀ other ∈ log.inprogress (lookup chain.streamid),
      Misses op other := fun op hop => searchNode_eq_none (hfresh.2 op hop)
  have hlen : (chain.ops.length : Int) = chain.pieces.length + chain.whole.length := by
    rw [OpChain.ops, length_append]
    omega
  refine ⟨?_, rfl, rfl⟩
  by_cases hpcs : chain.pieces = []
  · have hops : chain.ops = chain.whole := by rw [OpChain.ops, hpcs, nil_append]
    have hwhl : chain.whole ≠ [] := by
      intro hnil
      have hshape := chain.shape
      cases hkind : chain.kind with
      | gc => rw [hkind] at hshape; exact hshape hnil
      | rebuild => rw [hkind] at hshape; exact hshape.1 hpcs
      | repack => rw [hkind] at hshape; exact hshape.2 hnil
    refine .resting ⟨.held ?_ rfl rfl, hwhl, by simp [Dispatch.init], ?_, ?_, ?_⟩
    · rw [← hops]
      exact chain.queues_of
    · intro d hd
      rw [hpcs] at hd
      cases hd
    · refine ⟨_, [], [], ?_, hbef, by rw [hpcs]; exact .nil⟩
      rw [nil_append, ← hops]
      exact hlog
    · change (processopinfo lookup log chain.ops).log.outstandingcnt = _
      rw [hout, hlen, hpcs]
      simp [Dispatch.init]
  · refine .working chain.pieces [] [] ⟨?_, rfl, rfl, ?_, by simp, by simp [Dispatch.init], ?_, ?_, ?_,
      by simpa using hpcs⟩
    · rw [if_neg hpcs]
      exact chain.queues_of
    · intro op hop
      rw [append_nil, append_nil] at hop
      exact ⟨⟨op, hop, rfl, rfl⟩, chain.count_pos op hop⟩
    · intro d hd
      rw [append_nil, append_nil]
      exact chain.outstanding_self hd
    · refine ⟨_, chain.pieces, [], hlog, hbef, ?_⟩
      rw [append_nil, append_nil, forall₂_same]
      exact fun op hop => ⟨⟨rfl, rfl⟩, (chain.outstanding_self hop).symm⟩
    · rw [append_nil, append_nil, chain.awaited_self]
      change (processopinfo lookup log chain.ops).log.outstandingcnt = _
      rw [hout, hlen]
      simp [Dispatch.init]
      omega

theorem OpChain.produceOps_piece (hpcs : ∀ op' ∈ op :: ops, chain.Has op') (hpos : 0 < op.count) :
    ∃ piece ops', produceOps (chain.onQueue (op :: ops ++ chain.whole)) =
        some (piece :: chain.whole, chain.onQueue (if ops' = [] then [] else ops' ++ chain.whole)) ∧
      (∀ op' ∈ piece :: ops', chain.Has op' ∧ (op' ∈ ops ∨ 0 < op'.count)) ∧
      ∀ d, outstanding (piece :: ops') d = outstanding (op :: ops) d := by
  have htype := fun op' hop' => (hpcs op' hop').type
  have hhead := hpcs op (mem_cons_self ..)
  have hrest : ∀ op' ∈ op :: ops, chain.Has op' ∧ (op' ∈ ops ∨ 0 < op'.count) := by
    intro op' hop'
    refine ⟨hpcs op' hop', ?_⟩
    rcases mem_cons.1 hop' with rfl | hop'
    · exact .inr hpos
    · exact .inl hop'
  have hshape := chain.shape
  have hwhl := chain.whole_type
  unfold onQueue
  cases hkind : chain.kind with
  | gc =>
    rw [hkind] at hshape htype hwhl
    have hqueue : op :: ops ++ chain.whole ≠ [] := by simp
    rcases produceGc_split htype hwhl hshape hpos with ⟨hcnt, hprod⟩ | ⟨hcnt, hprod⟩
    · refine ⟨{ op with count := 1 }, op.skipObject :: ops, ?_, ?_, fun d => ?_⟩
      · simp only [produceOps, ne_eq, not_true_eq_false, if_false, hqueue, not_false_eq_true, if_true,
          hprod]
        rfl
      · obtain ⟨d, hd, htgt⟩ := hhead
        intro op' hop'
        rw [mem_cons, mem_cons] at hop'
        rcases hop' with rfl | rfl | hop'
        · exact ⟨⟨d, hd, htgt⟩, .inr Nat.one_pos⟩
        · refine ⟨⟨d, hd, htgt.1, htgt.2.trans (htype op (mem_cons_self ..))⟩, .inr ?_⟩
          simp only [Opinfo.skipObject]
          omega
        · exact hrest op' (mem_cons_of_mem _ hop')
      · have hmatch : op.skipObject.matches d = op.matches d := by
          rw [Bool.eq_iff_iff, matches_iff, matches_iff, htype op (mem_cons_self ..)]
          rfl
        have hmatch' : ({ op with count := 1 } : Opinfo).matches d = op.matches d := rfl
        have hskip : op.skipObject.count = op.count - 1 := rfl
        simp only [outstanding_cons, hmatch, hmatch', hskip]
        split <;> omega
    · refine ⟨op, ops, ?_, hrest, fun d => rfl⟩
      simp only [produceOps, ne_eq, not_true_eq_false, if_false, hqueue, not_false_eq_true, if_true,
        hprod]
  | rebuild =>
    rw [hkind] at hshape
    refine ⟨op, ops, ?_, hrest, fun d => rfl⟩
    rw [hshape.2]
    simp [produceOps]
  | repack =>
    rw [hkind] at hshape
    obtain ⟨d, hd, -⟩ := hhead
    rw [hshape.1] at hd
    cases hd

theorem Dispatch.Working.produce (h : s.Working lookup chain outstandingcnt rest queued sent)
    (hstep : s.step lookup .produce = some s') :
    ∃ rest' queued', s'.Working lookup chain outstandingcnt rest' queued' sent ∧
      s'.failed = s.failed ∧ s'.refreed = s.refreed := by
  simp only [Dispatch.step, Option.bind_eq_bind, Option.bind_eq_some_iff, Option.some.injEq] at hstep
  obtain ⟨⟨newop, queues⟩, hprod, rfl⟩ := hstep
  rw [h.queues] at hprod
  cases rest with
  | nil => simp [produceOps] at hprod
  | cons op ops =>
    rw [if_neg (cons_ne_nil _ _)] at hprod
    have hpcs : ∀ op' ∈ op :: ops, chain.Has op' ∧ 0 < op'.count := fun op' hop' =>
      h.pieces op' (mem_append_left _ (mem_append_left _ hop'))
    obtain ⟨piece, ops', heq, hnew, hsame⟩ := OpChain.produceOps_piece
      (fun op' hop' => (hpcs op' hop').1) (hpcs op (mem_cons_self ..)).2
    rw [heq] at hprod
    obtain ⟨rfl, rfl⟩ := Prod.mk.inj (Option.some.inj hprod)
    have hout : ∀ d, outstanding (ops' ++ (queued ++ [piece]) ++ sent) d =
        outstanding (op :: ops ++ queued ++ sent) d := by
      intro d
      have := hsame d
      rw [outstanding_cons] at this
      simp only [outstanding_append, outstanding_cons, outstanding_nil] at this ⊢
      omega
    refine ⟨ops', queued ++ [piece], ⟨rfl, ?_, h.running, ?_, h.executed, h.completed, ?_,
      h.holds.congr hout, ?_, by simp⟩, rfl, rfl⟩
    · rw [map_append, ← h.ready]
      rfl
    · have hpos : ∀ op' ∈ piece :: ops', chain.Has op' ∧ 0 < op'.count := by
        intro op' hop'
        obtain ⟨hhas, hmem | hpos⟩ := hnew op' hop'
        · exact hpcs op' (mem_cons_of_mem _ hmem)
        · exact ⟨hhas, hpos⟩
      intro op' hop'
      simp only [mem_append, mem_singleton] at hop'
      rcases hop' with (hop' | hop' | rfl) | hop'
      · exact hpos op' (mem_cons_of_mem _ hop')
      · exact h.pieces op' (by simp [hop'])
      · exact hpos op' (mem_cons_self ..)
      · exact h.pieces op' (by simp [hop'])
    · intro d hd
      rw [hout]
      exact h.counts d hd
    · rw [OpChain.awaited_congr hout]
      exact h.outstandingcnt_eq

theorem Dispatch.Working.execute (h : s.Working lookup chain outstandingcnt rest queued sent)
    {outcome : Outcome} (hstep : s.step lookup (.execute i outcome) = some s') :
    ∃ queued' sent', s'.Working lookup chain outstandingcnt rest queued' sent' ∧
      s'.failed = s.failed ∧ s'.refreed = s.refreed := by
  simp only [Dispatch.step, Option.bind_eq_bind, Option.bind_eq_some_iff, Option.some.injEq] at hstep
  obtain ⟨package, hpkg, ⟨message, nextop⟩, hmsg, rfl⟩ := hstep
  rw [h.ready] at hpkg
  obtain ⟨op, rfl, hperm, herase⟩ := getElem?_map_some hpkg
  have hmem : ∀ op' ∈ op :: queued.eraseIdx i, op' ∈ queued := fun op' hop' => hperm.symm.subset hop'
  have hop := h.pieces op (by simp [hmem op (mem_cons_self ..)])
  have htype := hop.1.type
  -- the piece is executed on its own: a rebuild has nothing behind it
  have hpiece : message = [op.executed (outcome.errval 0)] ∧ nextop = chain.whole := by
    have hshape := chain.shape
    have hne : op.type ≠ .deleteRef := by rw [htype]; cases chain.kind <;> decide
    cases hkind : chain.kind with
    | gc =>
      rw [hkind] at htype
      simp only [turnMessage, Bool.false_eq_true, if_false, htype, ChainKind.pieceType,
        outcome.execute_piece hne, Option.some.injEq, Prod.mk.injEq] at hmsg
      exact ⟨hmsg.1.symm, hmsg.2.symm⟩
    | rebuild =>
      rw [hkind] at htype hshape
      simp only [turnMessage, Bool.false_eq_true, if_false, htype, ChainKind.pieceType, hshape.2,
        outcome.execute_piece hne, Option.some.injEq, Prod.mk.injEq] at hmsg
      exact ⟨hmsg.1.symm, hmsg.2.symm.trans hshape.2.symm⟩
    | repack =>
      rw [hkind] at hshape
      obtain ⟨d, hd, -⟩ := hop.1
      rw [hshape.1] at hd
      cases hd
  obtain ⟨rfl, rfl⟩ := hpiece
  have hout : ∀ d, outstanding
      (rest ++ queued.eraseIdx i ++ (sent ++ [op.executed (outcome.errval 0)])) d =
        outstanding (rest ++ queued ++ sent) d := by
    intro d
    have hmatch : (op.executed (outcome.errval 0)).matches d = op.matches d := rfl
    have hcnt : (op.executed (outcome.errval 0)).count = op.count := rfl
    simp only [outstanding_append, outstanding_perm hperm, outstanding_cons, outstanding_nil, hmatch,
      hcnt]
    omega
  refine ⟨queued.eraseIdx i, sent ++ [op.executed (outcome.errval 0)], ⟨h.queues, herase ▸ ?_, ?_, ?_,
    ?_, h.completed, ?_, h.holds.congr hout, ?_, by simp⟩, rfl, rfl⟩
  · rw [h.ready]
  · rw [map_append, ← h.running]
    rfl
  · intro op' hop'
    simp only [mem_append, mem_singleton] at hop'
    rcases hop' with (hop' | hop') | hop' | rfl
    · exact h.pieces op' (by simp [hop'])
    · exact h.pieces op' (by simp [hmem op' (mem_cons_of_mem _ hop')])
    · exact h.pieces op' (by simp [hop'])
    · exact hop
  · intro op' hop'
    rw [mem_append, mem_singleton] at hop'
    rcases hop' with hop' | rfl
    · exact h.executed op' hop'
    · rfl
  · intro d hd
    rw [hout]
    exact h.counts d hd
  · rw [OpChain.awaited_congr hout]
    exact h.outstandingcnt_eq

theorem Dispatch.Working.complete (h : s.Working lookup chain outstandingcnt rest queued sent)
    (hunbr : s.Unbroken lookup (.complete i)) (hstep : s.step lookup (.complete i) = some s') :
    s'.Phase lookup chain outstandingcnt ∧ s'.failed = s.failed ∧ s'.refreed = s.refreed := by
  simp only [Dispatch.step, Option.bind_eq_bind, Option.bind_eq_some_iff, Option.some.injEq] at hstep
  obtain ⟨executed, hexec, rfl⟩ := hstep
  have hcond := hunbr executed hexec
  rw [h.running] at hexec
  obtain ⟨op, rfl, hperm, herase⟩ := getElem?_map_some hexec
  have hmem : ∀ op' ∈ op :: sent.eraseIdx i, op' ∈ sent := fun op' hop' => hperm.symm.subset hop'
  have hop := h.pieces op (by simp [hmem op (mem_cons_self ..)])
  have hst := h.executed op (hmem op (mem_cons_self ..))
  have hpcs : ∀ piece ∈ op :: (rest ++ queued ++ sent.eraseIdx i),
      chain.Has piece ∧ 0 < piece.count := by
    intro piece hpiece
    rw [mem_cons, mem_append] at hpiece
    rcases hpiece with rfl | hpiece | hpiece
    · exact hop
    · exact h.pieces piece (mem_append_left _ hpiece)
    · exact h.pieces piece (by simp [hmem piece (mem_cons_of_mem _ hpiece)])
  have hout : ∀ d, outstanding (op :: (rest ++ queued ++ sent.eraseIdx i)) d =
      outstanding (rest ++ queued ++ sent) d := by
    intro d
    simp only [outstanding_cons, outstanding_append, outstanding_perm hperm]
    omega
  obtain ⟨hok, hholds, houtst, progress, hprog, hzero, hone⟩ :=
    (h.holds.congr hout).complete hpcs hst (hcond op rfl)
  have hres : (resourcelogProcessop lookup true s.log [op]).result = .ok := by
    simp [resourcelogProcessop, hok]
  have hfilt : ([op].filter fun op => !op.start) = [op] := by simp [hst]
  have hdone : ∀ old ∈ s.completed ++ [op], chain.Has old := by
    intro old hold
    rw [mem_append, mem_singleton] at hold
    rcases hold with hold | rfl
    · exact h.completed old hold
    · exact hop.1
  have hcnts : ∀ d ∈ chain.pieces, outstanding (rest ++ queued ++ sent.eraseIdx i) d +
      outstanding (s.completed ++ [op]) d = d.count := by
    intro d hd
    have hcount := h.counts d hd
    rw [← hout, outstanding_cons] at hcount
    rw [outstanding_append s.completed, outstanding_cons, outstanding_nil]
    omega
  have hcnt : (processopinfo lookup s.log [op]).log.outstandingcnt = outstandingcnt + s.others +
      chain.awaited (rest ++ queued ++ sent.eraseIdx i) + chain.whole.length := by
    rw [houtst, h.outstandingcnt_eq, OpChain.awaited_congr hout]
    omega
  rw [turn_of_ok hok hprog]
  dsimp only
  rw [if_pos hres, hfilt]
  refine ⟨?_, by simp [hres], by simp [Executed.Refrees]⟩
  by_cases hpend : rest ++ queued ++ sent.eraseIdx i = []
  · rw [hpend] at hcnts hcnt hholds
    simp only [append_eq_nil_iff] at hpend
    obtain ⟨⟨rfl, rfl⟩, hsent⟩ := hpend
    have hqs : s.queues = {} := by rw [h.queues]; simp
    have hrdy : s.ready = [] := h.ready
    have hrun : s.running.eraseIdx i = [] := by rw [h.running, herase, hsent]; rfl
    have hset : ∀ d ∈ chain.pieces, outstanding (s.completed ++ [op]) d = d.count := by
      intro d hd
      have := hcnts d hd
      rw [outstanding_nil] at this
      omega
    have hawaited : chain.awaited [] = 0 := by simp [OpChain.awaited]
    rw [hawaited] at hcnt
    by_cases hwhl : chain.whole = []
    · -- nothing comes behind the pieces
      refine .finished ⟨⟨hqs, ?_, hrun⟩, ⟨s.completed ++ [op], [], (append_nil _).symm,
        hdone, hset, by rw [hwhl]; exact .nil⟩, ?_⟩
      · simp [hrdy, hwhl]
      · rw [hwhl] at hcnt
        simpa using hcnt
    · -- the last piece hands on the rest
      have hprog' : progress = 1 := hone (by rw [hsent]; rfl) hwhl
      refine .resting ⟨.waiting hqs ?_ hrun, hwhl, hdone, hset, hholds (.inr hwhl),
        by simpa using hcnt⟩
      simp [hrdy, hprog', hwhl]
  · have hprog' : progress = 0 := hzero hpend
    refine .working rest queued (sent.eraseIdx i) ⟨h.queues, ?_, ?_, ?_, ?_, hdone, hcnts,
      hholds (.inl hpend), hcnt, hpend⟩
    · simp [h.ready, hprog']
    · rw [h.running, herase]
    · exact fun op' hop' => hpcs op' (mem_cons_of_mem _ hop')
    · exact fun op' hop' => h.executed op' (hmem op' (mem_cons_of_mem _ hop'))

namespace Dispatch.Resting

variable {outstandingcnt : Int} {s s' : Dispatch}

theorem produce (h : s.Resting lookup chain outstandingcnt) (hstep : s.step lookup .produce = some s') :
    s'.Resting lookup chain outstandingcnt ∧ s'.failed = s.failed ∧ s'.refreed = s.refreed := by
  simp only [Dispatch.step, Option.bind_eq_bind, Option.bind_eq_some_iff, Option.some.injEq] at hstep
  obtain ⟨⟨newop, queues⟩, hprod, rfl⟩ := hstep
  have hemp : produceOps {} = none := rfl
  cases h.rest with
  | held hqs hrdy hrun =>
    have hpkg : newop = chain.whole ∧ queues = {} := by
      have hshape := chain.shape
      have htypes := chain.whole_type
      rw [hqs] at hprod
      unfold OpChain.onQueue at hprod
      cases hkind : chain.kind with
      | gc =>
        rw [hkind] at hprod htypes
        simp only [produceOps, ne_eq, not_true_eq_false, if_false, h.whole_ne, not_false_eq_true,
          if_true, produceGc_refs htypes] at hprod
        obtain ⟨rfl, rfl⟩ := Prod.mk.inj (Option.some.inj hprod)
        exact ⟨rfl, rfl⟩
      | rebuild =>
        rw [hkind] at hshape
        exact absurd hshape.2 h.whole_ne
      | repack =>
        rw [hkind] at hprod
        simp only [produceOps, ne_eq, h.whole_ne, not_false_eq_true, if_true] at hprod
        obtain ⟨rfl, rfl⟩ := Prod.mk.inj (Option.some.inj hprod)
        exact ⟨rfl, rfl⟩
    obtain ⟨rfl, rfl⟩ := hpkg
    refine ⟨⟨.waiting rfl ?_ hrun, h.whole_ne, h.completed, h.counts, h.holds,
      h.outstandingcnt_eq⟩, rfl, rfl⟩
    rw [hrdy, nil_append]
  | waiting hqs _ _ => rw [hqs, hemp] at hprod; cases hprod
  | executed _ hqs _ _ _ _ => rw [hqs, hemp] at hprod; cases hprod

theorem execute (h : s.Resting lookup chain outstandingcnt) {i : Nat} {outcome : Outcome}
    (hunbr : s.Unbroken lookup (.execute i outcome)) (hstep : s.step lookup (.execute i outcome) = some s') :
    s'.Resting lookup chain outstandingcnt ∧ s'.failed = s.failed ∧ s'.refreed = s.refreed := by
  simp only [Dispatch.step, Option.bind_eq_bind, Option.bind_eq_some_iff, Option.some.injEq] at hstep
  obtain ⟨package, hpkg, ⟨message, nextop⟩, hmsg, rfl⟩ := hstep
  have htable := hunbr package hpkg
  cases h.rest with
  | waiting hqs hrdy hrun =>
    rw [hrdy] at hpkg
    obtain ⟨hi, rfl⟩ := List.getElem?_eq_some_iff.1 hpkg
    obtain rfl : i = 0 := by simpa using hi
    obtain ⟨hcomp, hst⟩ := outcome.execute_completes htable
    -- what is not completed in pieces is executed as a whole
    have hwhl : message = outcome.execute chain.whole ∧ nextop = [] := by
      obtain ⟨op, ops, hops⟩ := exists_cons_of_ne_nil h.whole_ne
      have htype : op.type ≠ .deleteObj := by
        rw [chain.whole_type op (by rw [hops]; exact mem_cons_self ..)]
        cases chain.kind <;> decide
      rw [getElem_cons_zero] at hmsg
      dsimp only at hmsg
      rw [hops] at hmsg ⊢
      unfold turnMessage at hmsg
      dsimp only at hmsg
      rw [if_neg Bool.false_ne_true] at hmsg
      split at hmsg
      · contradiction
      · obtain ⟨rfl, rfl⟩ := Prod.mk.inj (Option.some.inj hmsg)
        exact ⟨rfl, rfl⟩
    obtain ⟨rfl, rfl⟩ := hwhl
    refine ⟨⟨.executed (outcome.execute chain.whole) hqs ?_ ?_ hcomp hst, h.whole_ne,
      h.completed, h.counts, h.holds, h.outstandingcnt_eq⟩, rfl, rfl⟩
    · simp [hrdy]
    · simp [hrun]
  | held _ hrdy _ => simp [hrdy] at hpkg
  | executed _ _ hrdy _ _ _ => simp [hrdy] at hpkg

theorem complete (h : s.Resting lookup chain outstandingcnt) {i : Nat}
    (hstep : s.step lookup (.complete i) = some s') :
    s'.Finished chain outstandingcnt ∧ s'.failed = s.failed ∧ s'.refreed = s.refreed := by
  simp only [Dispatch.step, Option.bind_eq_bind, Option.bind_eq_some_iff, Option.some.injEq] at hstep
  obtain ⟨executed, hexec, rfl⟩ := hstep
  cases h.rest with
  | executed message hqs hrdy hrun hcomp hst =>
    rw [hrun] at hexec
    obtain ⟨hi, rfl⟩ := List.getElem?_eq_some_iff.1 hexec
    obtain rfl : i = 0 := by simpa using hi
    have hne : message ≠ [] := by
      rintro rfl
      exact h.whole_ne (forall₂_nil_right_iff.1 hcomp)
    obtain ⟨hok, hout⟩ := h.holds.completeWhole hcomp hne hst
    have hres : (resourcelogProcessop lookup true s.log message).result = .ok := by
      simp [resourcelogProcessop, hok]
    have hlog : (resourcelogProcessop lookup true s.log message).log =
        (processopinfo lookup s.log message).log := by
      simp [resourcelogProcessop]
    have hfilt : (message.filter fun op => !op.start) = message := by
      rw [filter_eq_self]
      intro op hop
      simp [hst op hop]
    have hturn : Executed.turn lookup true s.log
        { message := message, nextop := [], abortops := false } =
          ((processopinfo lookup s.log message).log, none) := by
      simp [Executed.turn, hlog]
    rw [getElem_cons_zero, hturn]
    dsimp only
    rw [if_pos hres, hfilt]
    refine ⟨⟨⟨hqs, ?_, ?_⟩, ⟨s.completed, message, rfl, h.completed, h.counts, hcomp⟩, ?_⟩,
      by simp [hres], by simp [Executed.Refrees]⟩
    · simp [hrdy]
    · simp [hrun]
    · dsimp only
      rw [hout, h.outstandingcnt_eq]
      omega
  | held _ _ hrun => simp [hrun] at hexec
  | waiting _ _ hrun => simp [hrun] at hexec

end Dispatch.Resting

theorem Dispatch.Phase.other (h : s.Phase lookup chain outstandingcnt) {message : List Opinfo}
    (hfor : chain.Foreign message) :
    ({ s with
      log := (processopinfo lookup s.log message).log
      others := s.others + ((processopinfo lookup s.log message).log.outstandingcnt -
        s.log.outstandingcnt) } : Dispatch).Phase lookup chain outstandingcnt := by
  cases h with
  | working rest queued sent h =>
    refine .working rest queued sent ⟨h.queues, h.ready, h.running, h.pieces, h.executed, h.completed,
      h.counts, h.holds.foreign hfor, ?_, h.pending⟩
    have hcnt := h.outstandingcnt_eq
    dsimp only
    omega
  | resting h =>
    refine .resting ⟨?_, h.whole_ne, h.completed, h.counts, h.holds.foreign hfor, ?_⟩
    · cases h.rest with
      | held hqs hrdy hrun => exact .held hqs hrdy hrun
      | waiting hqs hrdy hrun => exact .waiting hqs hrdy hrun
      | executed message hqs hrdy hrun hcomp hst =>
        exact .executed message hqs hrdy hrun hcomp hst
    · have hcnt := h.outstandingcnt_eq
      dsimp only
      omega
  | finished h =>
    refine .finished ⟨h.done, h.completed, ?_⟩
    have hcnt := h.outstandingcnt_eq
    dsimp only
    omega

theorem Dispatch.Finished.no_step (h : s.Finished chain outstandingcnt)
    (hstep : s.step lookup action = some s') : ∃ message, action = .other message := by
  obtain ⟨hqs, hrdy, hrun⟩ := h.done
  cases action with
  | produce => simp [Dispatch.step, hqs, produceOps] at hstep
  | execute i outcome => simp [Dispatch.step, hrdy] at hstep
  | complete i => simp [Dispatch.step, hrun] at hstep
  | other message => exact ⟨message, rfl⟩

theorem Dispatch.Inv.step (h : s.Inv lookup chain outstandingcnt)
    (hfor : ∀ message, action = .other message → chain.Foreign message) (hunbr : s.Unbroken lookup action)
    (hstep : s.step lookup action = some s') : s'.Inv lookup chain outstandingcnt := by
  have hkept : s'.Phase lookup chain outstandingcnt ∧ s'.failed = s.failed ∧
      s'.refreed = s.refreed := by
    cases action with
    | other message =>
      obtain rfl := Option.some.inj hstep
      exact ⟨h.phase.other (hfor message rfl), rfl, rfl⟩
    | produce =>
      cases h.phase with
      | working rest queued sent h =>
        obtain ⟨rest', queued', hwork, hflags⟩ := h.produce hstep
        exact ⟨.working _ _ _ hwork, hflags⟩
      | resting h =>
        obtain ⟨hrest, hflags⟩ := h.produce hstep
        exact ⟨.resting hrest, hflags⟩
      | finished h =>
        obtain ⟨message, hoth⟩ := h.no_step hstep
        cases hoth
    | execute i outcome =>
      cases h.phase with
      | working rest queued sent h =>
        obtain ⟨queued', sent', hwork, hflags⟩ := h.execute hstep
        exact ⟨.working _ _ _ hwork, hflags⟩
      | resting h =>
        obtain ⟨hrest, hflags⟩ := h.execute hunbr hstep
        exact ⟨.resting hrest, hflags⟩
      | finished h =>
        obtain ⟨message, hoth⟩ := h.no_step hstep
        cases hoth
    | complete i =>
      cases h.phase with
      | working rest queued sent h => exact h.complete hunbr hstep
      | resting h =>
        obtain ⟨hdone, hflags⟩ := h.complete hstep
        exact ⟨.finished hdone, hflags⟩
      | finished h =>
        obtain ⟨message, hoth⟩ := h.no_step hstep
        cases hoth
  obtain ⟨hphase, hfail, hrefreed⟩ := hkept
  exact ⟨hphase, hfail.trans h.accepted, hrefreed.trans h.freed⟩

/-- So does every run. -/
theorem Dispatch.Reaches.inv (hfresh : chain.Fresh lookup log)
    (h : Dispatch.Reaches lookup chain (Dispatch.Unbroken lookup) log s) :
    s.Inv lookup chain log.outstandingcnt := by
  induction h with
  | init => exact .init hfresh
  | step _ action hfor hunbr hstep ih => exact ih.step hfor hunbr hstep

/-! ## GC executions -/

/-! ## The whole run -/

/-- Whoever runs the packages of a chain, in whatever order and with whatever errors: no call fails,
no op is freed twice, every op is completed for its whole count, and the chain leaves nothing
outstanding — as long as no error makes a worker skip reference deletions. -/
theorem reaches_accounted (hfresh : chain.Fresh lookup log)
    (h : Dispatch.Reaches lookup chain (Dispatch.Unbroken lookup) log s) :
    s.Accounted chain log.outstandingcnt :=
  (h.inv hfresh).accounted

/-- The deletion of one object, and of references in two places. -/
def sampleOpChain : OpChain where
  kind := .gc
  pieces := [sampleDelobj 0 true 0]
  whole := [sampleDelref true, { sampleDelref true with ftag := sampleFtag 3 1 false }]
  piece_type := by decide
  whole_type := by decide
  shape := by unfold ChainKind.Shape; decide
  start := by decide
  count_pos := by decide
  distinct := by decide
  ctag := (sampleFtag 1 0 false).ctag
  streamid := (sampleFtag 1 0 false).streamid
  stream := by decide

/-- The chain is distributed, and run to its end: the execution of the object deletion ends in
`errval`. -/
def sampleDispatch (errval : Int) : List Dispatch.Action :=
  [.produce, .execute 0 ⟨0, fun _ => errval⟩, .complete 0, .execute 0 ⟨0, fun _ => 0⟩, .complete 0]

def Dispatch.run (lookup : List Char → Nat) (s : Dispatch) : List Dispatch.Action → Option Dispatch
  | [] => some s
  | action :: actions => (s.step lookup action).bind fun s => s.run lookup actions

def Dispatch.Admits (lookup : List Char → Nat) (condition : Dispatch → Dispatch.Action → Prop)
    (s : Dispatch) : List Dispatch.Action → Prop
  | [] => True
  | action :: actions =>
    (∀ message, action ≠ .other message) ∧ condition s action ∧
      ∀ s' ∈ s.step lookup action, s'.Admits lookup condition actions

theorem Dispatch.Reaches.run {condition : Dispatch → Dispatch.Action → Prop}
    (h : Dispatch.Reaches lookup chain condition log s) {actions : List Dispatch.Action}
    (hadmits : s.Admits lookup condition actions) (hrun : s.run lookup actions = some s') :
    Dispatch.Reaches lookup chain condition log s' := by
  induction actions generalizing s with
  | nil =>
    obtain rfl := Option.some.inj hrun
    exact h
  | cons action actions ih =>
    obtain ⟨s₁, hstep, hrun⟩ := Option.bind_eq_some_iff.1 hrun
    obtain ⟨hoth, hcond, hadmits⟩ := hadmits
    exact ih (h.step action (fun message heq => absurd heq (hoth message)) hcond hstep)
      (hadmits s₁ hstep) hrun

def sampleDispatched (errval : Int) : Option Dispatch :=
  (Dispatch.init (fun _ => 0) (Resourcelog.init .modify) sampleOpChain.ops).run (fun _ => 0)
    (sampleDispatch errval)

/-- Where the object deletion fails, the reference deletions are skipped.  They are logged as ops that
start, so that nothing completes them, and they are freed twice. -/
theorem skipped_unaccounted :
    sampleOpChain.Fresh (fun _ => 0) (Resourcelog.init .modify) ∧
      ∃ s, Dispatch.Reaches (fun _ => 0) sampleOpChain (fun _ _ => True)
          (Resourcelog.init .modify) s ∧
        s.Done ∧ s.refreed = true ∧ s.log.outstandingcnt = 2 ∧ ¬ s.Accounted sampleOpChain 0 := by
  obtain ⟨s, hs⟩ := Option.isSome_iff_exists.1 (show (sampleDispatched 5).isSome = true by decide)
  have hdone : (sampleDispatched 5).map (fun s => (s.queues, s.ready, s.running)) =
      some ({}, [], []) := by decide
  have hrefreed : (sampleDispatched 5).map Dispatch.refreed = some true := by decide
  have hcnt : (sampleDispatched 5).map (fun s => s.log.outstandingcnt) = some 2 := by decide
  rw [hs] at hdone hrefreed hcnt
  have hfreed : s.refreed = true := Option.some.inj hrefreed
  obtain ⟨hqueues, hrest⟩ := Prod.mk.inj (Option.some.inj hdone)
  obtain ⟨hready, hrunning⟩ := Prod.mk.inj hrest
  refine ⟨⟨rfl, by decide⟩, s, Dispatch.Reaches.run .init ?_ hs, ⟨hqueues, hready, hrunning⟩, hfreed,
    Option.some.inj hcnt, fun h => ?_⟩
  · refine ⟨by simp, trivial, fun _ _ => ⟨by simp, trivial, fun _ _ => ⟨by simp, trivial, fun _ _ => ?_⟩⟩⟩
    exact ⟨by simp, trivial, fun _ _ => ⟨by simp, trivial, fun _ _ => trivial⟩⟩
  · have hnot := h.freed
    rw [hfreed] at hnot
    cases hnot

/-- Without the failure the chain is accounted for. -/
theorem sampleDispatched_accounted :
    ∃ s, sampleDispatched 0 = some s ∧ s.Done ∧ s.Accounted sampleOpChain 0 := by
  obtain ⟨s, hs⟩ := Option.isSome_iff_exists.1 (show (sampleDispatched 0).isSome = true by decide)
  have hdone : (sampleDispatched 0).map (fun s => (s.queues, s.ready, s.running)) =
      some ({}, [], []) := by decide
  rw [hs] at hdone
  obtain ⟨hqueues, hrest⟩ := Prod.mk.inj (Option.some.inj hdone)
  obtain ⟨hready, hrunning⟩ := Prod.mk.inj hrest
  have hfresh : sampleOpChain.Fresh (fun _ => 0) (Resourcelog.init .modify) := ⟨rfl, by decide⟩
  refine ⟨s, hs, ⟨hqueues, hready, hrunning⟩, reaches_accounted hfresh (Dispatch.Reaches.run .init ?_ hs)⟩
  refine ⟨by simp, trivial, fun s₁ h₁ => ?_⟩
  obtain rfl := Option.some.inj h₁
  refine ⟨by simp, fun _ _ _ _ _ => rfl, fun s₂ h₂ => ?_⟩
  obtain rfl := Option.some.inj h₂
  refine ⟨by simp, ?_, fun s₃ h₃ => ?_⟩
  · intro executed hexecuted op hmessage htype found hfound
    obtain rfl := Option.some.inj hexecuted
    obtain rfl := (List.cons.inj hmessage).1
    obtain rfl := Option.some.inj hfound
    rintro ⟨old, rest, htail, -, herrval, -⟩
    obtain rfl := (List.cons.inj htail).1
    exact herrval rfl
  · obtain rfl := Option.some.inj h₃
    refine ⟨by simp, fun _ _ _ _ _ => rfl, fun s₄ h₄ => ?_⟩
    obtain rfl := Option.some.inj h₄
    refine ⟨by simp, ?_, fun s₅ _ => trivial⟩
    -- the message about the references has two ops
    intro executed hexecuted op hmessage
    obtain rfl := Option.some.inj hexecuted
    cases hmessage

end Marfs.Rman
