import Marfs.Rman.Producer

/-!
# The log of a chain whose objects are handed out

Every package of a chain completes one object deletion, as a message of one op.  `Tracks` relates
the log to the packages that are still on their way: every `DEL-OBJ` op of the chain has what those
packages amount to outstanding, and carries an error iff one of its completions did.  A completion
keeps that up (`Tracks.complete`), whatever other chains are in the log, and a message about another
chain does not disturb it (`Tracks.foreign`).
-/

namespace Marfs.Rman

open Tagging List

variable {lookup : List Char → Nat}

/-! ## Searching for an op -/

variable {newop : Opinfo} {chain : List Opinfo} {before : List (List Opinfo)}

variable {op old : Opinfo} {chains after : List (List Opinfo)} {type : OperationType}
  {mid ops : List Opinfo} {found : Found}

theorem matches_iff :
    op.matches newop = true ↔
      op.ftag.objno = newop.ftag.objno ∧ op.ftag.fileno = newop.ftag.fileno ∧
        op.type = newop.type := by
  simp [Opinfo.matches, and_assoc]

theorem matches_congr {op' newop' : Opinfo} (hop : op.matches op' = true)
    (hnew : newop.matches newop' = true) : op.matches newop = op'.matches newop' := by
  obtain ⟨hobj, hfile, htype⟩ := matches_iff.1 hop
  obtain ⟨hobj', hfile', htype'⟩ := matches_iff.1 hnew
  simp only [Opinfo.matches, hobj, hfile, htype, hobj', hfile', htype']

@[simp] theorem matches_refl (op : Opinfo) : op.matches op = true := matches_iff.2 ⟨rfl, rfl, rfl⟩

theorem matches_comm (op newop : Opinfo) : op.matches newop = newop.matches op := by
  have h := @matches_iff op newop
  have h' := @matches_iff newop op
  grind

def Misses (newop : Opinfo) (chain : List Opinfo) : Prop :=
  onStream newop chain = true → ∀ op ∈ chain, op.matches newop = false

theorem searchChain_eq_none (ops : List Opinfo) :
    ∀ {pre : List Opinfo} {activechain activealike : Bool},
      searchChain newop pre activechain activealike ops = none ↔
        ∀ op ∈ ops, op.matches newop = false := by
  induction ops with
  | nil => intros; simp [searchChain]
  | cons op ops ih =>
    intro pre activechain activealike
    unfold searchChain
    cases hmatch : op.matches newop with
    | true => simp [hmatch]
    | false => simp [hmatch, ih]

theorem misses_iff :
    (if onStream newop chain then searchChain newop [] false false chain else none) = none ↔
      Misses newop chain := by
  unfold Misses
  split
  · rename_i hstr
    simp [hstr, searchChain_eq_none]
  · rename_i hstr
    simp [hstr]

theorem searchNode_skip (hbef : ∀ chain ∈ before, Misses newop chain) (chains : List (List Opinfo)) :
    searchNode newop (before ++ chains) =
      (searchNode newop chains).map fun found => { found with before := before ++ found.before } := by
  induction before with
  | nil => simp
  | cons chain before ih =>
    have hmiss := misses_iff.2 (hbef chain (mem_cons_self ..))
    have ih := ih fun chain hchain => hbef chain (mem_cons_of_mem _ hchain)
    rw [cons_append, searchNode, hmiss]
    dsimp only
    rw [ih, Option.map_map]
    rfl

theorem searchNode_eq_none (h : searchNode newop chains = none) : ∀ chain ∈ chains, Misses newop chain := by
  induction chains with
  | nil => simp
  | cons chain chains ih =>
    unfold searchNode at h
    split at h
    · cases h
    · rename_i hmiss
      rw [Option.map_eq_none_iff] at h
      intro other hoth
      rcases mem_cons.1 hoth with rfl | hoth
      · exact misses_iff.1 hmiss
      · exact ih h other hoth

theorem searchChain_skip (ops mid : List Opinfo) :
    ∀ (pre : List Opinfo) (activechain activealike : Bool),
      (∀ op ∈ mid, op.matches newop = false) →
      searchChain newop pre activechain activealike (mid ++ ops) =
        searchChain newop (pre ++ mid) (activechain || mid.any fun op => op.count ≠ 0)
          (mid.foldl (fun activealike op =>
            if op.type ≠ newop.type then false else activealike || op.count ≠ 0) activealike)
          ops := by
  induction mid with
  | nil =>
    intro pre activechain activealike _
    simp
  | cons op mid ih =>
    intro pre activechain activealike hmid
    rw [cons_append, searchChain, if_neg (by simp [hmid op (mem_cons_self ..)]),
      ih _ _ _ fun op hop => hmid op (mem_cons_of_mem _ hop)]
    simp [Bool.or_assoc]

theorem alike_of_type (hmid : ∀ op ∈ mid, op.type = type) (activealike : Bool) :
    mid.foldl (fun activealike op =>
        if op.type ≠ type then false else activealike || op.count ≠ 0) activealike =
      (activealike || mid.any fun op => op.count ≠ 0) := by
  induction mid generalizing activealike with
  | nil => simp
  | cons op mid ih =>
    rw [foldl_cons, if_neg (by simp [hmid op (mem_cons_self ..)]),
      ih fun op hop => hmid op (mem_cons_of_mem _ hop)]
    simp [Bool.or_assoc]

theorem alike_of_ne (hmid : ∀ op ∈ mid, op.type ≠ type) :
    mid.foldl (fun activealike op =>
      if op.type ≠ type then false else activealike || op.count ≠ 0) false = false := by
  induction mid with
  | nil => rfl
  | cons op mid ih =>
    rw [foldl_cons, if_pos (hmid op (mem_cons_self ..)),
      ih fun op hop => hmid op (mem_cons_of_mem _ hop)]

theorem searchNode_found (hbef : ∀ other ∈ before, Misses newop other) (hstr : onStream newop chain = true)
    (hfound : searchChain newop [] false false chain = some found) (hnone : found.before = [])
    (after : List (List Opinfo)) :
    searchNode newop (before ++ chain :: after) =
      some { found with before := before, after := after } := by
  rw [searchNode_skip hbef, searchNode, if_pos hstr, hfound]
  simp [hnone]

/-! ## The completion of one object deletion -/

theorem alikeActive_append {rest : List Opinfo} (hops : ∀ op ∈ ops, op.type = type)
    (hrest : ∀ op ∈ rest, op.type ≠ type) :
    alikeActive type (ops ++ rest) = ops.any fun op => op.count ≠ 0 := by
  induction ops with
  | nil =>
    cases rest with
    | nil => rfl
    | cons op rest => simp [alikeActive, hrest op (mem_cons_self ..)]
  | cons op ops ih =>
    have ih := ih fun op hop => hops op (mem_cons_of_mem _ hop)
    unfold alikeActive at ih ⊢
    rw [cons_append, takeWhile_cons_of_pos (by simp [hops op (mem_cons_self ..)]), any_cons, ih,
      any_cons]

theorem completeOps_single (log : Resourcelog) (rest : List Opinfo) (hcnt : newop.count ≤ old.count) :
    (completeOps log [newop] (old :: rest)).2 =
      (old.complete newop :: rest,
        if newop.count = old.count then
          .settled (old.complete newop).errval (alikeActive newop.type rest) rest.isEmpty
        else .incomplete) := by
  have hle : ¬ newop.count > old.count := by omega
  unfold completeOps
  rw [if_neg hle]
  by_cases hleft : newop.count = old.count
  · have hzero : ¬ (old.complete newop).count ≠ 0 := by simp [Opinfo.complete, hleft]
    dsimp only
    rw [if_neg hzero, if_pos hleft]
  · have hne : (old.complete newop).count ≠ 0 := by simp only [Opinfo.complete]; omega
    dsimp only
    rw [if_pos hne, if_neg hleft]
    rfl

theorem completeOps_single_outstanding (log : Resourcelog) (rest : List Opinfo)
    (hcnt : newop.count ≤ old.count) :
    (completeOps log [newop] (old :: rest)).1.outstandingcnt =
      log.outstandingcnt - (if newop.count = old.count then 1 else 0) := by
  have hle : ¬ newop.count > old.count := by omega
  unfold completeOps
  rw [if_neg hle]
  by_cases hleft : newop.count = old.count
  · have hzero : ¬ (old.complete newop).count ≠ 0 := by simp [Opinfo.complete, hleft]
    dsimp only
    rw [if_neg hzero, if_pos hleft]
    rfl
  · have hne : (old.complete newop).count ≠ 0 := by simp only [Opinfo.complete]; omega
    dsimp only
    rw [if_pos hne, if_neg hleft]
    simp [Resourcelog.noteCompletion]

/-- Where the message about one op meets its chain, among ops of its type and in front of others. -/
structure MeetsPiece (newop : Opinfo) (before : List (List Opinfo)) (pre : List Opinfo)
    (old : Opinfo) (post rest : List Opinfo) : Prop where
  misses : ∀ chain ∈ before, Misses newop chain
  stream : onStream newop (pre ++ old :: post) = true
  pre_misses : ∀ op ∈ pre, op.matches newop = false ∧ op.type = newop.type
  meets : old.matches newop = true
  post_type : ∀ op ∈ post, op.type = newop.type
  rest_type : ∀ op ∈ rest, op.type ≠ newop.type

namespace MeetsPiece

variable {newop old : Opinfo} {before after : List (List Opinfo)} {pre post rest : List Opinfo}

theorem search (h : MeetsPiece newop before pre old post rest) (after : List (List Opinfo)) :
    searchNode newop (before ++ (pre ++ old :: post ++ rest) :: after) =
      some { before := before, pre := pre, tail := old :: (post ++ rest), after := after
             activechain := pre.any fun op => op.count ≠ 0
             activealike := pre.any fun op => op.count ≠ 0 } := by
  have hstr : onStream newop (pre ++ old :: post ++ rest) = true := by
    have hstr := h.stream
    cases hpre : pre with
    | nil => simpa [hpre, onStream] using hstr
    | cons op ops => simpa [hpre, onStream] using hstr
  have hfound : searchChain newop [] false false (pre ++ old :: post ++ rest) =
      some { before := [], pre := pre, tail := old :: (post ++ rest), after := []
             activechain := pre.any fun op => op.count ≠ 0
             activealike := pre.any fun op => op.count ≠ 0 } := by
    rw [append_assoc, cons_append,
      searchChain_skip _ _ _ _ _ fun op hop => (h.pre_misses op hop).1,
      alike_of_type fun op hop => (h.pre_misses op hop).2, searchChain, if_pos h.meets]
    simp
  rw [searchNode_found h.misses hstr hfound rfl]

theorem processopinfo (h : MeetsPiece newop before pre old post rest) {log : Resourcelog}
    (hlog : log.inprogress (lookup newop.ftag.streamid) =
      before ++ (pre ++ old :: post ++ rest) :: after) (hst : newop.start = false)
    (hcnt : newop.count ≤ old.count) : let processed := Rman.processopinfo lookup log [newop]
    processed.result = .ok ∧
      processed.log.inprogress (lookup newop.ftag.streamid) =
        before ++ (if newop.count = old.count ∧ (∀ op ∈ pre, op.count = 0) ∧ post ++ rest = [] then []
          else [pre ++ old.complete newop :: post ++ rest]) ++ after ∧
      processed.log.outstandingcnt =
        log.outstandingcnt - (if newop.count = old.count then 1 else 0) ∧
      processed.progress = some (
        if newop.count ≠ old.count ∨ (pre ++ post).any (fun op => op.count ≠ 0) then 0
        else if (old.complete newop).errval = 0 then 1 else -1) := by
  intro processed
  have halk : alikeActive newop.type (post ++ rest) = post.any fun op => op.count ≠ 0 :=
    alikeActive_append h.post_type h.rest_type
  have hprocessed : processed = processCompletion log (lookup newop.ftag.streamid)
      { before := before, pre := pre, tail := old :: (post ++ rest), after := after
        activechain := pre.any fun op => op.count ≠ 0
        activealike := pre.any fun op => op.count ≠ 0 } [newop] := by
    simp only [processed, Rman.processopinfo, hlog, h.search after, hst, any_cons, any_nil,
      ne_eq, not_true_eq_false, decide_false, Bool.or_false, Bool.false_eq_true, if_false]
  have hcomp := completeOps_single log (post ++ rest) hcnt
  have hout := completeOps_single_outstanding log (post ++ rest) hcnt
  rw [hprocessed]
  unfold processCompletion
  generalize completeOps log [newop] (old :: (post ++ rest)) = completed at hcomp hout
  obtain ⟨log', tail, completion⟩ := completed
  obtain ⟨rfl, rfl⟩ := Prod.mk.inj hcomp
  rw [halk]
  refine ⟨?_, ?_, hout, ?_⟩
  · by_cases hleft : newop.count = old.count
    · simp [hleft]
    · simp [hleft]
  · by_cases hleft : newop.count = old.count
    · by_cases hpre : ∀ op ∈ pre, op.count = 0
      · have hnone := iff_true_intro hpre
        by_cases hemp : post ++ rest = []
        · simp [hleft, Found.finishes, Found.remove, Resourcelog.setNode, hnone, hemp]
        · simp [hleft, Found.finishes, Found.put, Resourcelog.setNode, hnone, hemp]
      · have hsome := iff_false_intro hpre
        simp [hleft, Found.finishes, Found.put, Resourcelog.setNode, hsome]
    · simp [hleft, Found.finishes, Found.put, Resourcelog.setNode]
  · by_cases hleft : newop.count = old.count
    · simp [hleft, Found.progress]
    · simp [hleft, Found.progress]

end MeetsPiece

structure Meets (newop : Opinfo) (before : List (List Opinfo)) (pre : List Opinfo) (old : Opinfo)
    (post refs : List Opinfo) : Prop where
  misses : ∀ chain ∈ before, Misses newop chain
  stream : onStream newop (pre ++ old :: post) = true
  pre_misses : ∀ op ∈ pre, op.matches newop = false ∧ op.type = .deleteObj
  meets : old.matches newop = true
  type : newop.type = .deleteObj
  post_type : ∀ op ∈ post, op.type = .deleteObj
  refs_type : ∀ op ∈ refs, op.type = .deleteRef
  refs_ne : refs ≠ []

namespace Meets

variable {newop old : Opinfo} {before after : List (List Opinfo)} {pre post refs : List Opinfo}

theorem piece (h : Meets newop before pre old post refs) : MeetsPiece newop before pre old post refs := by
  refine ⟨h.misses, h.stream, fun op hop => ?_, h.meets, fun op hop => ?_, fun op hop => ?_⟩
  · rw [h.type]
    exact h.pre_misses op hop
  · rw [h.type]
    exact h.post_type op hop
  · rw [h.type, h.refs_type op hop]
    decide

theorem search (h : Meets newop before pre old post refs) (after : List (List Opinfo)) :
    ∃ activechain,
      searchNode newop (before ++ (pre ++ old :: post ++ refs) :: after) =
        some { before := before, pre := pre, tail := old :: (post ++ refs), after := after
               activechain := activechain
               activealike := pre.any fun op => op.count ≠ 0 } :=
  ⟨_, h.piece.search after⟩

theorem processopinfo (h : Meets newop before pre old post refs) {log : Resourcelog}
    (hlog : log.inprogress (lookup newop.ftag.streamid) =
      before ++ (pre ++ old :: post ++ refs) :: after) (hst : newop.start = false)
    (hcnt : newop.count ≤ old.count) : let processed := Rman.processopinfo lookup log [newop]
    processed.result = .ok ∧
      processed.log.inprogress (lookup newop.ftag.streamid) =
        before ++ (pre ++ old.complete newop :: post ++ refs) :: after ∧
      processed.progress = some (
        if newop.count ≠ old.count ∨ (pre ++ post).any (fun op => op.count ≠ 0) then 0
        else if (old.complete newop).errval = 0 then 1 else -1) := by
  intro processed
  obtain ⟨hok, hch, -, hprog⟩ := h.piece.processopinfo hlog hst hcnt
  refine ⟨hok, ?_, hprog⟩
  -- the references end the chain, and are still outstanding
  rw [hch, if_neg fun hdone => h.refs_ne (append_eq_nil_iff.1 hdone.2.2).2]
  simp

end Meets

/-! ## Messages about other chains -/

def Opinfo.SameTarget (op op' : Opinfo) : Prop := op.ftag = op'.ftag ∧ op.type = op'.type

theorem Misses.congr {chain' : List Opinfo} (htgt : Forall₂ Opinfo.SameTarget chain chain')
    (h : Misses newop chain) : Misses newop chain' := by
  intro hstr op' hop'
  cases htgt with
  | nil => cases hop'
  | @cons head head' rest rest' hhead hrest =>
    have hall : Forall₂ Opinfo.SameTarget (head :: rest) (head' :: rest') := .cons hhead hrest
    have hstr' : onStream newop (head :: rest) = true := by
      simpa only [onStream, hhead.1] using hstr
    obtain ⟨i, hi, rfl⟩ := mem_iff_getElem.1 hop'
    have hi' : i < (head :: rest).length := hall.length_eq ▸ hi
    obtain ⟨hftag, htype⟩ := hall.get hi' hi
    have hmiss := h hstr' _ (getElem_mem hi')
    simp only [get_eq_getElem] at hftag htype
    simpa only [Opinfo.matches, hftag, htype] using hmiss

theorem Misses.foreign {chain message : List Opinfo} {ctag streamid : List Char}
    (hops : Forall₂ Opinfo.SameTarget ops chain)
    (hstr : ∀ op ∈ ops, op.ftag.ctag = ctag ∧ op.ftag.streamid = streamid)
    (hfor : ∀ newop ∈ message.head?, newop.ftag.ctag = ctag → newop.ftag.streamid = streamid →
      ∀ op ∈ ops, op.matches newop = false) : ∀ newop ∈ message.head?, Misses newop chain := by
  intro newop hnewop
  refine Misses.congr hops fun hon => ?_
  cases ops with
  | nil => simp [onStream] at hon
  | cons op ops =>
    simp only [onStream, Bool.and_eq_true, beq_iff_eq] at hon
    obtain ⟨hctag, hsid⟩ := hstr op (mem_cons_self ..)
    exact hfor newop hnewop (hon.2.symm.trans hctag) (hon.1.symm.trans hsid)

theorem forall₂_sameTarget_refl (ops : List Opinfo) : Forall₂ Opinfo.SameTarget ops ops :=
  forall₂_same.2 fun _ _ => ⟨rfl, rfl⟩

theorem completeOps_target (newop : List Opinfo) :
    ∀ (log : Resourcelog) (index : List Opinfo),
      Forall₂ Opinfo.SameTarget index (completeOps log newop index).2.1 := by
  induction newop with
  | nil => exact fun log index => forall₂_sameTarget_refl index
  | cons op ops ih =>
    intro log index
    cases index with
    | nil => exact .nil
    | cons old olds =>
      have hold : old.SameTarget (old.complete op) := ⟨rfl, rfl⟩
      unfold completeOps
      split
      · exact forall₂_sameTarget_refl _
      · dsimp only
        split
        · exact .cons hold (forall₂_sameTarget_refl _)
        · cases ops with
          | nil => exact .cons hold (forall₂_sameTarget_refl _)
          | cons nextop ops =>
            cases olds with
            | nil => exact .cons hold .nil
            | cons nextold olds =>
              dsimp only
              split
              · exact .cons hold (forall₂_sameTarget_refl _)
              · exact .cons hold (ih _ _)

theorem restartOps_target (newop : List Opinfo) :
    ∀ {outstandingcnt outstandingcnt' : Int} {index tail : List Opinfo},
      restartOps outstandingcnt newop index = some (outstandingcnt', tail) →
      Forall₂ Opinfo.SameTarget index tail := by
  induction newop with
  | nil =>
    intro _ _ index tail hst
    simp only [restartOps, Option.some.injEq, Prod.mk.injEq] at hst
    rw [← hst.2]
    exact forall₂_sameTarget_refl index
  | cons op ops ih =>
    intro _ _ index tail hst
    cases index with
    | nil => cases hst
    | cons old olds =>
      simp only [restartOps, Option.bind_eq_bind, Option.bind_eq_some_iff, Option.some.injEq,
        Prod.mk.injEq] at hst
      obtain ⟨⟨cnt, olds'⟩, holds, -, rfl⟩ := hst
      refine .cons ?_ (ih holds)
      split <;> exact ⟨rfl, rfl⟩

theorem searchNode_append (after : List (List Opinfo)) :
    ∀ {found : Found}, searchNode newop chains = some found →
      searchNode newop (chains ++ after) = some { found with after := found.after ++ after } := by
  induction chains with
  | nil =>
    intro found h
    cases h
  | cons chain chains ih =>
    intro found h
    rw [cons_append]
    unfold searchNode at h ⊢
    split at h
    · obtain rfl := Option.some.inj h
      rfl
    · obtain ⟨found', hfound', rfl⟩ := Option.map_eq_some_iff.1 h
      rw [ih hfound']
      rfl

theorem found_misses (hch : chains = before ++ chain :: after) (hmiss : Misses newop chain)
    (hfound : searchNode newop chains = some found) :
    (∀ {tail : List Opinfo}, Forall₂ Opinfo.SameTarget found.tail tail →
      ∃ before' after', found.put tail = before' ++ chain :: after' ∧
        ∀ op, (∀ other ∈ before, Misses op other) → ∀ other ∈ before', Misses op other) ∧
    ∃ before' after', found.remove = before' ++ chain :: after' ∧
      ∀ op, (∀ other ∈ before, Misses op other) → ∀ other ∈ before', Misses op other := by
  subst hch
  cases hbef : searchNode newop before with
  | some found' =>
    rw [searchNode_append _ hbef] at hfound
    obtain rfl := Option.some.inj hfound
    obtain ⟨hch, -⟩ := searchNode_some _ hbef
    refine ⟨fun {tail} htgt => ?_, ?_⟩
    · refine ⟨found'.before ++ (found'.pre ++ tail) :: found'.after, after, by simp [Found.put], ?_⟩
      intro op hop other hoth
      have hchain : Misses op (found'.pre ++ tail) := by
        refine Misses.congr (rel_append (forall₂_sameTarget_refl found'.pre) htgt) ?_
        exact hop _ (by rw [hch]; simp [Found.chain])
      rw [mem_append, mem_cons] at hoth
      rcases hoth with hoth | rfl | hoth
      · exact hop other (by rw [hch]; simp [hoth])
      · exact hchain
      · exact hop other (by rw [hch]; simp [hoth])
    · refine ⟨found'.before ++ found'.after, after, by simp [Found.remove], ?_⟩
      intro op hop other hoth
      apply hop
      rw [hch]
      rw [mem_append] at hoth ⊢
      exact hoth.imp_right fun hoth => mem_cons_of_mem _ hoth
  | none =>
    rw [searchNode_skip (searchNode_eq_none hbef), searchNode, misses_iff.2 hmiss] at hfound
    simp only [Option.map_map, Option.map_eq_some_iff, Function.comp_apply] at hfound
    obtain ⟨found', -, rfl⟩ := hfound
    refine ⟨fun {tail} _ => ?_, ?_⟩
    · exact ⟨before, found'.put tail, by simp [Found.put], fun _ h => h⟩
    · exact ⟨before, found'.remove, by simp [Found.remove], fun _ h => h⟩

theorem processopinfo_misses {log : Resourcelog} (newop : List Opinfo) {node : Nat}
    (hlog : log.inprogress node = before ++ chain :: after) (hmiss : ∀ op ∈ newop.head?, Misses op chain) :
    ∃ before' after', (processopinfo lookup log newop).log.inprogress node =
        before' ++ chain :: after' ∧
      ∀ op, (∀ other ∈ before, Misses op other) → ∀ other ∈ before', Misses op other := by
  have hsame : ∃ before' after', log.inprogress node = before' ++ chain :: after' ∧
      ∀ op, (∀ other ∈ before, Misses op other) → ∀ other ∈ before', Misses op other :=
    ⟨before, after, hlog, fun _ h => h⟩
  cases newop with
  | nil => exact hsame
  | cons newhead newops =>
    unfold processopinfo
    dsimp only
    split
    · exact hsame
    by_cases hnode : node = lookup newhead.ftag.streamid
    swap
    · -- another node
      cases searchNode newhead (log.inprogress (lookup newhead.ftag.streamid)) with
      | none =>
        dsimp only
        unfold processNew
        split
        · exact hsame
        · cases log.type with
          | record => exact hsame
          | modify => simpa [Resourcelog.setNode, hnode] using hsame
      | some found =>
        dsimp only
        split
        · unfold processRestart
          cases restartOps log.outstandingcnt (newhead :: newops) found.tail with
          | none => exact hsame
          | some result => simpa [Resourcelog.setNode, hnode] using hsame
        · simpa [processCompletion, Resourcelog.setNode, hnode,
            (completeOps_frame (newhead :: newops) log found.tail).1] using hsame
    subst hnode
    cases hsrch : searchNode newhead (log.inprogress (lookup newhead.ftag.streamid)) with
    | none =>
      dsimp only
      unfold processNew
      split
      · exact hsame
      · cases log.type with
        | record => exact hsame
        | modify =>
          refine ⟨before, after ++ [newhead :: newops], ?_, fun _ h => h⟩
          simp [Resourcelog.setNode, hlog]
    | some found =>
      obtain ⟨hput, hremove⟩ := found_misses hlog (hmiss newhead rfl) hsrch
      dsimp only
      split
      · unfold processRestart
        cases hrestart : restartOps log.outstandingcnt (newhead :: newops) found.tail with
        | none => exact hsame
        | some result => simpa [Resourcelog.setNode] using hput (restartOps_target _ hrestart)
      · have htgt := completeOps_target (newhead :: newops) log found.tail
        simp only [processCompletion, Resourcelog.setNode, if_true]
        split
        · exact hremove
        · exact hput htgt

end Marfs.Rman
