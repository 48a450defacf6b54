import Mathlib.Data.List.InsertIdx
import Mathlib.Data.List.Perm.Basic
import Marfs.Rman.ProducerLog

/-!
# GC work is distributed without loss, duplication or early release

As long as objects of a chain are on their way, what the producer holds, the packages that wait and
those whose completion is to be logged are pieces of the `DEL-OBJ` ops, each with a copy of the
`DEL-REF` segment (`Work.Working`).  The completion that leaves none releases one copy, and from
then on that copy is all there is (`Work.Released`).  Every step keeps this up, so every run
distributes its chain as it should (`reaches_distributed`), unless the error of one object deletion
is hidden behind the completion of another (`hidden_failure_released`).
-/

namespace Marfs.Rman

open Tagging List

variable {lookup : List Char → Nat} {chain : GcChain}

/-! ## Pieces of object deletions -/

def outstanding (pending : List Opinfo) (op : Opinfo) : Nat :=
  ((pending.filter fun piece => piece.matches op).map Opinfo.count).sum

@[simp] theorem outstanding_nil (op : Opinfo) : outstanding [] op = 0 := rfl

theorem outstanding_cons (piece : Opinfo) (pending : List Opinfo) (op : Opinfo) :
    outstanding (piece :: pending) op =
      (if piece.matches op then piece.count else 0) + outstanding pending op := by
  unfold outstanding
  cases hmatch : piece.matches op with
  | true => simp [hmatch]
  | false => simp [hmatch]

theorem outstanding_append (pending pending' : List Opinfo) (op : Opinfo) :
    outstanding (pending ++ pending') op = outstanding pending op + outstanding pending' op := by
  simp [outstanding]

variable {pending : List Opinfo} {op : Opinfo} {α β : Type} {log : Resourcelog} {s s' : Work}

theorem outstanding_perm {pending' : List Opinfo} (h : pending.Perm pending') (op : Opinfo) :
    outstanding pending op = outstanding pending' op :=
  ((h.filter _).map _).sum_nat

theorem outstanding_pos {piece : Opinfo} (hpiece : piece ∈ pending) (hmatch : piece.matches op = true)
    (hcnt : 0 < piece.count) : 0 < outstanding pending op := by
  induction pending with
  | nil => cases hpiece
  | cons other pending ih =>
    rw [outstanding_cons]
    rcases mem_cons.1 hpiece with rfl | hpiece
    · rw [if_pos hmatch]
      omega
    · have := ih hpiece
      omega

theorem outstanding_eq_zero (h : ∀ piece ∈ pending, piece.matches op = false) :
    outstanding pending op = 0 := by
  have hfilt : pending.filter (fun piece => piece.matches op) = [] := by
    rw [filter_eq_nil_iff]
    intro piece hpiece
    simp [h piece hpiece]
  rw [outstanding, hfilt]
  rfl

def GcChain.Has (chain : GcChain) (op : Opinfo) : Prop := ∃ d ∈ chain.delobjs, d.SameTarget op

theorem Opinfo.SameTarget.matches {op' : Opinfo} (h : op.SameTarget op') : op'.matches op = true :=
  matches_iff.2 ⟨by rw [h.1], by rw [h.1], h.2.symm⟩

theorem GcChain.Has.type (h : chain.Has op) : op.type = .deleteObj := by
  obtain ⟨d, hd, htgt⟩ := h
  rw [← htgt.2]
  exact chain.delobj_type d hd

/-- The entry of an object deletion in the log, when some of its pieces are still pending and others
completed. -/
structure Entry (pending completed : List Opinfo) (d old : Opinfo) : Prop where
  target : d.SameTarget old
  count : old.count = outstanding pending d
  errval : old.errval ≠ 0 ↔ ∃ op ∈ completed, op.matches d = true ∧ op.errval ≠ 0

/-- The log holds the chain, behind others that none of its object deletions is found in. -/
structure Tracks (chain : GcChain) (pending completed : List Opinfo)
    (chains : List (List Opinfo)) : Prop where
  spec : ∃ before cur after, chains = before ++ (cur ++ chain.delrefs) :: after ∧
    (∀ d ∈ chain.delobjs, ∀ other ∈ before, Misses d other) ∧
    Forall₂ (Entry pending completed) chain.delobjs cur

namespace Tracks

theorem congr {pending pending' completed : List Opinfo} {chains : List (List Opinfo)}
    (h : Tracks chain pending completed chains) (heq : ∀ d, outstanding pending' d = outstanding pending d) :
    Tracks chain pending' completed chains := by
  obtain ⟨before, cur, after, hch, hbef, hcur⟩ := h
  refine ⟨before, cur, after, hch, hbef, hcur.imp fun d old hent => ?_⟩
  exact ⟨hent.target, hent.count.trans (heq d).symm, hent.errval⟩

theorem foreign {pending completed : List Opinfo} {log : Resourcelog}
    (h : Tracks chain pending completed (log.inprogress (lookup chain.streamid))) {message : List Opinfo}
    (hfor : Foreign chain message) :
    Tracks chain pending completed
      ((processopinfo lookup log message).log.inprogress (lookup chain.streamid)) := by
  obtain ⟨before, cur, after, hch, hbef, hcur⟩ := h
  have hmiss := Misses.foreign
    (rel_append (hcur.imp fun _ _ hent => hent.target) (forall₂_sameTarget_refl _))
    chain.stream hfor
  obtain ⟨before', after', hlog, hbef'⟩ := processopinfo_misses message hch hmiss
  exact ⟨before', cur, after', hlog, fun d hd => hbef' d (hbef d hd), hcur⟩

end Tracks

variable {l : List α} {R : α → β → Prop} {l' : List β} {d : Opinfo}
  {ops refs rest queued sent : List Opinfo} {i : Nat}

/-- A list around one of its elements, and what is related to it. -/
theorem forall₂_split {a : α} (h : Forall₂ R l l') (ha : a ∈ l) :
    ∃ l₁ l₂ l₁' b l₂', l = l₁ ++ a :: l₂ ∧ l' = l₁' ++ b :: l₂' ∧ Forall₂ R l₁ l₁' ∧ R a b ∧
      Forall₂ R l₂ l₂' := by
  obtain ⟨l₁, l₂, rfl⟩ := append_of_mem ha
  obtain ⟨l₁', rest, h₁, hrest, rfl⟩ : ∃ l₁' rest, Forall₂ R l₁ l₁' ∧
      Forall₂ R (a :: l₂) rest ∧ l' = l₁' ++ rest :=
    ⟨l'.take l₁.length, l'.drop l₁.length, forall₂_take_append _ _ _ h.flip |>.flip,
      forall₂_drop_append _ _ _ h.flip |>.flip, (take_append_drop _ _).symm⟩
  cases hrest with
  | cons hb h₂ => exact ⟨l₁, l₂, l₁', _, _, rfl, rfl, h₁, hb, h₂⟩

theorem forall₂_of_mem {S : α → β → Prop} (h : Forall₂ R l l') (himp : ∀ a ∈ l, ∀ b, R a b → S a b) :
    Forall₂ S l l' := by
  induction h with
  | nil => exact .nil
  | cons hab _ ih =>
    exact .cons (himp _ (mem_cons_self ..) _ hab) (ih fun a ha => himp a (mem_cons_of_mem _ ha))

theorem forall₂_mem_right {b : β} (h : Forall₂ R l l') (hb : b ∈ l') : ∃ a ∈ l, R a b := by
  obtain ⟨l₁', l₂', l₁, a, l₂, -, rfl, -, hab, -⟩ := forall₂_split h.flip hb
  exact ⟨a, by simp, hab⟩

theorem Misses.of_target {chain : List Opinfo} (htgt : d.SameTarget op) (h : Misses d chain) :
    Misses op chain := by
  intro hstr other hoth
  have hstr' : onStream d chain = true := by
    cases chain with
    | nil => cases hoth
    | cons head rest => simpa only [onStream, htgt.1] using hstr
  simpa only [Opinfo.matches, htgt.1, htgt.2] using h hstr' other hoth

def Clean (completed : List Opinfo) : Prop := ∀ op ∈ completed, op.errval = 0

theorem settled_iff {R : Opinfo → Opinfo → Prop} {ds cur : List Opinfo} (hcur : Forall₂ R ds cur)
    (hR : ∀ d old, R d old → old.count = outstanding pending d)
    (hpcs : ∀ piece ∈ pending, (∃ d ∈ ds, d.SameTarget piece) ∧ 0 < piece.count) :
    pending = [] ↔ ∀ old ∈ cur, old.count = 0 := by
  constructor
  · rintro rfl old hold
    obtain ⟨d, -, hent⟩ := forall₂_mem_right hcur hold
    exact hR d old hent
  · intro hzero
    by_contra hne
    obtain ⟨piece, hpiece⟩ := exists_mem_of_ne_nil _ hne
    obtain ⟨⟨d, hd, htgt⟩, hpos⟩ := hpcs piece hpiece
    obtain ⟨-, -, c₁, old, c₂, -, rfl, -, hent, -⟩ := forall₂_split hcur hd
    have hcnt := outstanding_pos hpiece htgt.matches hpos
    rw [← hR d old hent, hzero old (by simp)] at hcnt
    exact absurd hcnt (lt_irrefl 0)

/-- The log tells the ops of a chain apart. -/
theorem others_miss {d₁ d₂ : List Opinfo} (hmatch : op.matches d = true)
    (hdist : (d₁ ++ d :: d₂).Pairwise fun op op' => op.matches op' = false) :
    ∀ e ∈ d₁ ++ d₂, op.matches e = false := by
  intro e he
  rw [pairwise_append, pairwise_cons] at hdist
  rw [matches_congr hmatch (matches_refl e)]
  rcases mem_append.1 he with he | he
  · rw [matches_comm]
    exact hdist.2.2 e he d (mem_cons_self ..)
  · exact hdist.2.1.1 e he

theorem onStream_of_mem {ctag streamid : List Char} (hne : ops ≠ [])
    (hops : ∀ o ∈ ops, o.ftag.ctag = ctag ∧ o.ftag.streamid = streamid)
    (hop : op.ftag.ctag = ctag ∧ op.ftag.streamid = streamid) : onStream op ops = true := by
  cases ops with
  | nil => exact absurd rfl hne
  | cons head rest =>
    obtain ⟨hctag, hsid⟩ := hops head (mem_cons_self ..)
    simp [onStream, hctag, hsid, hop]

theorem entries_clean {completed cur : List Opinfo}
    (hcur : Forall₂ (Entry pending completed) chain.delobjs cur) (hdone : ∀ op ∈ completed, chain.Has op) :
    Clean completed ↔ ∀ old ∈ cur, old.errval = 0 := by
  constructor
  · intro hclean old hold
    obtain ⟨d, -, hent⟩ := forall₂_mem_right hcur hold
    by_contra hne
    obtain ⟨op, hop, -, herr⟩ := hent.errval.1 hne
    exact herr (hclean op hop)
  · intro hzero op hop
    obtain ⟨d, hd, htgt⟩ := hdone op hop
    obtain ⟨-, -, c₁, old, c₂, -, rfl, -, hent, -⟩ := forall₂_split hcur hd
    by_contra hne
    exact hent.errval.2 ⟨op, hop, htgt.matches, hne⟩ (hzero old (by simp))

theorem Tracks.complete {completed : List Opinfo}
    (h : Tracks chain (op :: pending) completed (log.inprogress (lookup chain.streamid)))
    (hpcs : ∀ piece ∈ op :: pending, chain.Has piece ∧ 0 < piece.count)
    (hdone : ∀ old ∈ completed, chain.Has old) (hst : op.start = false)
    (hmask : ∀ found, searchNode op (log.inprogress (lookup op.ftag.streamid)) = some found →
      ¬ found.Masks op) : let processed := processopinfo lookup log [op]
    processed.result = .ok ∧
      Tracks chain pending (completed ++ [op])
        (processed.log.inprogress (lookup chain.streamid)) ∧
      ∃ progress, processed.progress = some progress ∧ (progress = 0 ↔ pending ≠ []) ∧
        (0 < progress → Clean (completed ++ [op])) ∧
        (progress < 0 → ¬ Clean (completed ++ [op])) := by
  intro processed
  obtain ⟨before, cur, after, hch, hbef, hcur⟩ := h
  obtain ⟨⟨d, hd, htgt⟩, -⟩ := hpcs op (mem_cons_self ..)
  have hnode : lookup op.ftag.streamid = lookup chain.streamid := by
    rw [← htgt.1, (chain.stream d (mem_append_left _ hd)).2]
  obtain ⟨d₁, d₂, c₁, old, c₂, hdelobjs, rfl, h₁, hold, h₂⟩ := forall₂_split hcur hd
  have hmatch : op.matches d = true := htgt.matches
  have hoth := others_miss hmatch (hdelobjs ▸ chain.distinct)
  have hentries : Forall₂ (Entry pending (completed ++ [op])) chain.delobjs
      (c₁ ++ old.complete op :: c₂) := by
    have hkeep : ∀ e ∈ d₁ ++ d₂, ∀ o, Entry (op :: pending) completed e o →
        Entry pending (completed ++ [op]) e o := by
      intro e he o hent
      refine ⟨hent.target, ?_, ?_⟩
      · simpa [outstanding_cons, hoth e he] using hent.count
      · simpa [hoth e he, or_and_right, exists_or] using hent.errval
    rw [hdelobjs]
    refine rel_append ?_ (.cons ⟨hold.target, ?_, ?_⟩ ?_)
    · exact forall₂_of_mem h₁ fun e he o => hkeep e (mem_append_left _ he) o
    · have hcnt := hold.count
      rw [outstanding_cons, if_pos hmatch] at hcnt
      simp only [Opinfo.complete]
      omega
    · have herr := hold.errval
      simp only [Opinfo.complete, mem_append, mem_singleton]
      by_cases hop : op.errval = 0
      · simp only [hop, ne_eq, not_true_eq_false, if_false]
        refine herr.trans ⟨fun h => h.imp fun o h => ⟨.inl h.1, h.2⟩, ?_⟩
        rintro ⟨o, ho | rfl, h⟩
        · exact ⟨o, ho, h⟩
        · exact absurd hop h.2
      · simp only [ne_eq, hop, not_false_eq_true, if_true, true_iff]
        exact ⟨op, .inr rfl, hmatch, hop⟩
    · exact forall₂_of_mem h₂ fun e he o => hkeep e (mem_append_right _ he) o
  have hstr : ∀ o ∈ c₁ ++ old :: c₂, o.ftag.ctag = chain.ctag ∧
      o.ftag.streamid = chain.streamid ∧ o.type = .deleteObj := by
    intro o ho
    obtain ⟨e, he, hent⟩ := forall₂_mem_right hcur ho
    rw [← hent.target.1, ← hent.target.2]
    obtain ⟨hctag, hsid⟩ := chain.stream e (mem_append_left _ he)
    exact ⟨hctag, hsid, chain.delobj_type e he⟩
  have hmeets : Meets op before c₁ old c₂ chain.delrefs := by
    refine ⟨fun other hoth => (hbef d hd other hoth).of_target htgt, ?_, ?_,
      (matches_congr (matches_iff.2 ?_) hmatch).trans (matches_refl d),
      htgt.2.symm.trans (chain.delobj_type d hd), fun o ho => ?_, chain.delref_type,
      chain.delrefs_ne⟩
    · refine onStream_of_mem (by simp) (fun o ho => ⟨(hstr o ho).1, (hstr o ho).2.1⟩) ?_
      rw [← htgt.1]
      exact chain.stream d (mem_append_left _ hd)
    · intro o ho
      refine ⟨?_, (hstr o (mem_append_left _ ho)).2.2⟩
      obtain ⟨e, he, hent⟩ := forall₂_mem_right h₁ ho
      rw [matches_congr (hent.target.matches) (matches_refl op), matches_comm]
      exact hoth e (mem_append_left _ he)
    · rw [← hold.target.1, ← hold.target.2]
      exact ⟨rfl, rfl, rfl⟩
    · exact (hstr o (by simp [ho])).2.2
  have hset := settled_iff hentries (fun _ _ hent => hent.count) fun piece hpiece =>
    hpcs piece (mem_cons_of_mem _ hpiece)
  have hclean := entries_clean hentries fun o ho => by
    rcases mem_append.1 ho with ho | ho
    · exact hdone o ho
    · rw [mem_singleton.1 ho]
      exact ⟨d, hd, htgt⟩
  have hcnt : op.count ≤ old.count := by
    rw [hold.count, outstanding_cons, if_pos hmatch]
    exact Nat.le_add_right ..
  rw [← hnode] at hch ⊢
  obtain ⟨hok, hlog, hprog⟩ := hmeets.processopinfo hch hst hcnt
  refine ⟨hok, ⟨before, _, after, hlog, hbef, hentries⟩, _, hprog, ?_⟩
  have hleft : (op.count ≠ old.count ∨ ((c₁ ++ c₂).any fun op => op.count ≠ 0) = true) ↔
      pending ≠ [] := by
    have hzero : (old.complete op).count = 0 ↔ op.count = old.count := by
      simp only [Opinfo.complete]
      omega
    rw [ne_eq, ne_eq, hset, ← not_iff_not, not_or, not_not, not_not]
    simp only [any_eq_true, decide_eq_true_eq, not_exists, not_and, not_not, mem_append, mem_cons,
      or_imp, forall_and, forall_eq, hzero]
    exact and_left_comm
  by_cases hpend : pending = []
  · have hall := hset.1 hpend
    rw [if_neg (by rw [hleft]; simpa using hpend)]
    by_cases herr : (old.complete op).errval = 0
    · rw [if_pos herr]
      refine ⟨by simp [hpend], fun _ => ?_, fun h => absurd h (by decide)⟩
      obtain ⟨activechain, hfound⟩ := hmeets.search after
      rw [← hch] at hfound
      have hnot := hmask _ hfound
      rw [hclean]
      intro o ho
      by_contra hne
      refine hnot ⟨old, c₂ ++ chain.delrefs, rfl, ?_, herr, ?_, ?_⟩
      · have := hall (old.complete op) (by simp)
        simp only [Opinfo.complete] at this
        omega
      · intro other hoth' htype
        have hmem : other ∈ c₁ ++ old.complete op :: c₂ := by
          simp only [mem_append, mem_cons] at hoth' ⊢
          rcases hoth' with h | h | h
          · exact .inl h
          · exact .inr (.inr h)
          · rw [chain.delref_type other h] at htype
            cases htype
        exact hall other hmem
      · refine ⟨o, ?_, ?_, hne⟩
        · simp only [mem_append, mem_cons] at ho ⊢
          rcases ho with h | rfl | h
          · exact .inl h
          · exact absurd herr hne
          · exact .inr (.inl h)
        · rw [mem_append, mem_cons] at ho
          rcases ho with h | rfl | h
          · exact (hstr o (mem_append_left _ h)).2.2
          · exact absurd herr hne
          · exact (hstr o (by simp [h])).2.2
    · rw [if_neg herr]
      refine ⟨by simp [hpend], fun h => absurd h (by decide), fun _ h => ?_⟩
      exact herr (hclean.1 h _ (by simp))
  · rw [if_pos (hleft.2 hpend)]
    simp [hpend]

/-! ## Objects on their way -/

/-- A piece of an object deletion that nobody has executed yet. -/
structure Unsent (chain : GcChain) (op : Opinfo) : Prop where
  has : chain.Has op
  count_pos : 0 < op.count
  start : op.start = true
  errval : op.errval = 0

/-- A piece that was executed. -/
structure Sent (chain : GcChain) (op : Opinfo) : Prop where
  has : chain.Has op
  count_pos : 0 < op.count
  start : op.start = false

/-- Objects are still on their way: with the producer (`rest`), in packages (`queued`), or executed
but not logged (`sent`). -/
structure Work.Working (lookup : List Char → Nat) (chain : GcChain) (s : Work)
    (rest queued sent : List Opinfo) : Prop where
  gcops : s.gcops = if rest = [] then [] else rest ++ chain.delrefs
  ready : s.ready = queued.map fun op => { ops := op :: chain.delrefs, abortops := false }
  running : s.running =
    sent.map fun op => { message := [op], nextop := chain.delrefs, abortops := false }
  unsent : ∀ op ∈ rest ++ queued, Unsent chain op
  executed : ∀ op ∈ sent, Sent chain op
  completed : ∀ op ∈ s.completed, chain.Has op
  tracks : Tracks chain (rest ++ queued ++ sent) s.completed
    (s.log.inprogress (lookup chain.streamid))
  pending : rest ++ queued ++ sent ≠ []
  refruns : s.refruns = 0
  partition : ((rest ++ queued).flatMap Opinfo.objects ++ s.handed).Perm chain.objects
  handed : (sent.flatMap Opinfo.objects ++ s.completed.flatMap Opinfo.objects).Perm s.handed

/-- Where the one copy of the `DEL-REF` segment is that was released: still with the producer, of a
chain without object deletions; in a package; executed, or skipped for an error, but not logged;
or gone. -/
inductive Work.Token (chain : GcChain) (s : Work) : Prop
  | held (gcops : s.gcops = chain.delrefs) (ready : s.ready = []) (running : s.running = [])
      (refruns : s.refruns = 0) (clean : Clean s.completed)
  | waiting (ops : List Opinfo) (abortops : Bool) (gcops : s.gcops = [])
      (ready : s.ready = [{ ops := ops, abortops := abortops }]) (running : s.running = [])
      (ops_type : ∀ op ∈ ops, op.type = .deleteRef) (ops_ne : ops ≠ []) (refruns : s.refruns = 0)
      (clean : abortops = false ↔ Clean s.completed)
  | executed (message : List Opinfo) (gcops : s.gcops = []) (ready : s.ready = [])
      (running : s.running = [{ message := message, nextop := [], abortops := false }])
      (message_type : ∀ op ∈ message, op.type = .deleteRef) (refruns : s.refruns = 1)
      (clean : Clean s.completed)
  | skipped (message nextop : List Opinfo) (gcops : s.gcops = []) (ready : s.ready = [])
      (running : s.running = [{ message := message, nextop := nextop, abortops := true }])
      (message_type : ∀ op ∈ message ++ nextop, op.type = .deleteRef) (refruns : s.refruns = 0)
      (failed : ¬ Clean s.completed)
  | gone (gcops : s.gcops = []) (ready : s.ready = []) (running : s.running = [])
      (refruns : s.refruns = 1 ∧ Clean s.completed ∨
        s.refruns = 0 ∧ (s.written = false ∨ ¬ Clean s.completed))

/-- All objects are deleted, as far as that went. -/
structure Work.Released (chain : GcChain) (s : Work) : Prop where
  token : s.Token chain
  handed : s.handed.Perm chain.objects
  completed : (s.completed.flatMap Opinfo.objects).Perm chain.objects

/-- What every step keeps. -/
inductive Work.Inv (lookup : List Char → Nat) (chain : GcChain) (s : Work) : Prop
  | working (rest queued sent : List Opinfo) (h : s.Working lookup chain rest queued sent)
  | released (h : s.Released chain)

theorem objects_of_delref (h : ∀ op ∈ ops, op.type = .deleteRef) : ops.flatMap Opinfo.objects = [] := by
  rw [flatMap_eq_nil_iff]
  intro op hop
  simp [Opinfo.objects, h op hop]

/-- The invariant is all that was asked for. -/
theorem Work.Inv.distributed (h : s.Inv lookup chain) : s.Distributed chain := by
  cases h with
  | working rest queued sent h =>
    have hrefs := objects_of_delref chain.delref_type
    have hgcops : s.gcops.flatMap Opinfo.objects = rest.flatMap Opinfo.objects := by
      rw [h.gcops]
      split
      · rename_i hrest
        rw [hrest]
      · rw [flatMap_append, hrefs, append_nil]
    have hrdy : (s.ready.flatMap fun package => package.ops.flatMap Opinfo.objects) =
        queued.flatMap Opinfo.objects := by
      rw [h.ready, flatMap_map]
      simp [hrefs]
    refine ⟨?_, by simp [h.refruns], fun hone => absurd hone (by simp [h.refruns]), ?_⟩
    · rw [hgcops, hrdy, ← flatMap_append]
      exact h.partition
    · rintro ⟨hgc, hrd, hrn⟩
      refine absurd ?_ h.pending
      rw [h.gcops] at hgc
      rw [h.ready, map_eq_nil_iff] at hrd
      rw [h.running, map_eq_nil_iff] at hrn
      have hrest : rest = [] := by
        by_contra hne
        rw [if_neg hne] at hgc
        exact hne (append_eq_nil_iff.1 hgc).1
      rw [hrest, hrd, hrn]
      rfl
  | released h =>
    have hemp : s.gcops.flatMap Opinfo.objects = [] ∧
        (s.ready.flatMap fun package => package.ops.flatMap Opinfo.objects) = [] := by
      have hrefs := objects_of_delref chain.delref_type
      cases h.token with
      | held hgc hrd => simp [hgc, hrd, hrefs]
      | waiting ops abortops hgc hrd _ htype => simp [hgc, hrd, objects_of_delref htype]
      | executed _ hgc hrd => simp [hgc, hrd]
      | skipped _ _ hgc hrd => simp [hgc, hrd]
      | gone hgc hrd => simp [hgc, hrd]
    refine ⟨?_, ?_, ?_, ?_⟩
    · rw [hemp.1, hemp.2]
      simpa using h.handed
    · cases h.token with
      | held _ _ _ hruns => omega
      | waiting _ _ _ _ _ _ _ hruns => omega
      | executed _ _ _ _ _ hruns => omega
      | skipped _ _ _ _ _ _ hruns => omega
      | gone _ _ _ hruns => omega
    · intro hone
      refine ⟨h.completed, ?_⟩
      cases h.token with
      | held _ _ _ _ hclean => exact hclean
      | waiting _ _ _ _ _ _ _ hruns => omega
      | executed _ _ _ _ _ _ hclean => exact hclean
      | skipped _ _ _ _ _ _ hruns => omega
      | gone _ _ _ hruns =>
        rcases hruns with ⟨-, hclean⟩ | ⟨hzero, -⟩
        · exact hclean
        · omega
    · rintro ⟨hgc, hrd, hrn⟩ hwrit hclean
      cases h.token with
      | held hgc' => exact absurd (hgc'.symm.trans hgc) chain.delrefs_ne
      | waiting _ _ _ hrd' => simp [hrd] at hrd'
      | executed _ _ _ hrn' => simp [hrn] at hrn'
      | skipped _ _ _ _ hrn' => simp [hrn] at hrn'
      | gone _ _ _ hruns =>
        rcases hruns with ⟨hone, -⟩ | ⟨-, hbad⟩
        · exact hone
        · rcases hbad with hbad | hbad
          · simp [hwrit] at hbad
          · exact absurd hclean hbad

/-! ## Every step keeps the invariant -/

theorem outstanding_self (chain : GcChain) (hd : d ∈ chain.delobjs) :
    outstanding chain.delobjs d = d.count := by
  have hdist := chain.distinct
  obtain ⟨d₁, d₂, hdelobjs⟩ := append_of_mem hd
  rw [hdelobjs, pairwise_append, pairwise_cons] at hdist
  rw [hdelobjs, outstanding_append, outstanding_cons, if_pos (matches_refl d),
    outstanding_eq_zero fun op hop => hdist.2.2 op hop d (mem_cons_self ..),
    outstanding_eq_zero fun op hop => by rw [matches_comm]; exact hdist.2.1.1 op hop]
  omega

theorem Work.Inv.init (hfresh : chain.Fresh lookup log) :
    (Work.init lookup log chain.ops).Inv lookup chain := by
  cases hdelobjs : chain.delobjs with
  | nil =>
    have hobjects : chain.objects = [] := by simp [GcChain.objects, hdelobjs]
    refine .released ⟨.held ?_ rfl rfl rfl (by simp [Clean, Work.init]), ?_, ?_⟩
    · simp [Work.init, GcChain.ops, hdelobjs]
    · rw [hobjects]
      exact .nil
    · rw [hobjects]
      exact .nil
  | cons d ds =>
    have hd : d ∈ chain.delobjs := by rw [hdelobjs]; exact mem_cons_self ..
    have hne : chain.delobjs ≠ [] := ne_nil_of_mem hd
    refine .working chain.delobjs [] [] ⟨?_, rfl, rfl, ?_, by simp, by simp [Work.init], ?_, ?_, rfl,
      ?_, ?_⟩
    · rw [if_neg hne]
      rfl
    · intro op hop
      rw [append_nil] at hop
      exact ⟨⟨op, hop, rfl, rfl⟩, chain.count_pos op hop, chain.start op (mem_append_left _ hop),
        chain.errval op hop⟩
    · -- the chain is added to its node
      have hops : chain.ops = d :: (ds ++ chain.delrefs) := by rw [GcChain.ops, hdelobjs]; rfl
      have hany : ((chain.ops).any fun finop => decide (finop.start ≠ d.start)) = false := by
        rw [any_eq_false]
        intro op hop
        simp [chain.start op hop, chain.start d (mem_append_left _ hd)]
      have hstr := (chain.stream d (mem_append_left _ hd)).2
      have hlog : (processopinfo lookup log chain.ops).log.inprogress (lookup chain.streamid) =
          log.inprogress (lookup chain.streamid) ++ [chain.ops] := by
        rw [hops] at hany ⊢
        simp only [processopinfo, hany, Bool.false_eq_true, if_false, hstr, hfresh.2 d hd]
        simp [processNew, chain.start d (mem_append_left _ hd), hfresh.1, Resourcelog.setNode]
      refine ⟨_, chain.delobjs, [], hlog, fun op hop other hoth => ?_, ?_⟩
      · exact searchNode_eq_none (hfresh.2 op hop) other hoth
      · rw [append_nil, append_nil, forall₂_same]
        intro op hop
        refine ⟨⟨rfl, rfl⟩, (outstanding_self chain hop).symm, ?_⟩
        simp [Work.init, chain.errval op hop]
    · simpa using hne
    · simp [Work.init, GcChain.objects]
    · simp [Work.init]

theorem refSegment_append {dels : List Opinfo} (hdels : ∀ op ∈ dels, op.type = .deleteObj)
    (hrefs : ∀ op ∈ refs, op.type = .deleteRef) : refSegment (dels ++ refs) = refs := by
  induction dels with
  | nil =>
    cases refs with
    | nil => rfl
    | cons op refs => simp [refSegment, hrefs op (mem_cons_self ..)]
  | cons op dels ih =>
    have ih := ih fun op hop => hdels op (mem_cons_of_mem _ hop)
    unfold refSegment at ih ⊢
    rw [cons_append, dropWhile_cons_of_pos (by simp [hdels op (mem_cons_self ..)]), ih]

theorem objects_split (htype : op.type = .deleteObj) (hcnt : 1 < op.count) :
    op.objects = ({ op with count := 1 } : Opinfo).objects ++ op.skipObject.objects := by
  obtain ⟨n, hn⟩ : ∃ n, op.count = n + 1 := ⟨op.count - 1, by omega⟩
  have hone : ({ op with count := 1 } : Opinfo).type = .deleteObj := htype
  have hskip : op.skipObject.type = .deleteObj := rfl
  have hoff : op.skipObject.offset = op.offset + 1 := rfl
  have hoff' : ({ op with count := 1 } : Opinfo).offset = op.offset := rfl
  simp only [Opinfo.objects, htype, hone, hskip, if_true, hoff, hoff', hn, range'_succ,
    map_cons]
  simp [Opinfo.skipObject, hn]

theorem produceGc_split (htypes : ∀ op' ∈ op :: ops, op'.type = .deleteObj)
    (hrefs : ∀ op ∈ refs, op.type = .deleteRef) (hne : refs ≠ []) (hpos : 0 < op.count) :
    (1 < op.count ∧ produceGc (op :: ops ++ refs) =
      ({ op with count := 1 } :: refs, op.skipObject :: ops ++ refs)) ∨
    (op.count = 1 ∧ produceGc (op :: ops ++ refs) =
      (op :: refs, if ops = [] then [] else ops ++ refs)) := by
  have hseg := refSegment_append htypes hrefs
  have htype := htypes op (mem_cons_self ..)
  rw [cons_append] at hseg ⊢
  by_cases hcnt : 1 < op.count
  · refine .inl ⟨hcnt, ?_⟩
    simp [produceGc, htype, hcnt, hseg]
  · refine .inr ⟨by omega, ?_⟩
    unfold produceGc
    dsimp only
    rw [hseg, if_pos htype, if_neg hcnt]
    cases ops with
    | nil => simp
    | cons op' ops =>
      have hlen : (op' :: ops ++ refs).length ≠ refs.length := by
        simp only [cons_append, length_cons, length_append]
        omega
      rw [if_pos ⟨hlen, hne⟩, if_neg (cons_ne_nil _ _)]

theorem produceGc_refs (hrefs : ∀ op ∈ refs, op.type = .deleteRef) : produceGc refs = (refs, []) := by
  cases refs with
  | nil => rfl
  | cons op ops => simp [produceGc, hrefs op (mem_cons_self ..)]

theorem produceGc_delobj (htypes : ∀ op' ∈ op :: ops, op'.type = .deleteObj) (hpos : 0 < op.count) :
    (1 < op.count ∧ produceGc (op :: ops ++ chain.delrefs) =
      ({ op with count := 1 } :: chain.delrefs, op.skipObject :: ops ++ chain.delrefs)) ∨
    (op.count = 1 ∧ produceGc (op :: ops ++ chain.delrefs) =
      (op :: chain.delrefs, if ops = [] then [] else ops ++ chain.delrefs)) :=
  produceGc_split htypes chain.delref_type chain.delrefs_ne hpos

theorem Work.Working.produce (h : s.Working lookup chain rest queued sent)
    (hstep : s.step lookup .produce = some s') : s'.Inv lookup chain := by
  simp only [Work.step, Option.ite_none_left_eq_some, Option.some.injEq] at hstep
  obtain ⟨hne, rfl⟩ := hstep
  rw [h.gcops] at hne ⊢
  cases rest with
  | nil => simp at hne
  | cons op ops =>
    rw [if_neg (cons_ne_nil _ _)]
    have hop := h.unsent op (by simp)
    have htypes : ∀ op' ∈ op :: ops, op'.type = .deleteObj := fun op' hop' =>
      (h.unsent op' (mem_append_left _ hop')).has.type
    have hunsent : ∀ op' ∈ ops ++ queued, Unsent chain op' := fun op' hop' =>
      h.unsent op' (mem_cons_of_mem _ hop')
    rcases produceGc_delobj htypes hop.count_pos with ⟨hcnt, hprod⟩ | ⟨hcnt, hprod⟩
    · rw [hprod]
      have hhas : chain.Has op.skipObject ∧ chain.Has { op with count := 1 } := by
        obtain ⟨d, hd, htgt⟩ := hop.has
        exact ⟨⟨d, hd, htgt.1, htgt.2.trans hop.has.type⟩, ⟨d, hd, htgt⟩⟩
      have hspl := objects_split hop.has.type hcnt
      refine .working (op.skipObject :: ops) (queued ++ [{ op with count := 1 }]) sent
        ⟨?_, ?_, h.running, ?_, h.executed, h.completed, h.tracks.congr ?_, by simp, h.refruns, ?_,
          h.handed⟩
      · rw [if_neg (cons_ne_nil _ _)]
      · simp [h.ready]
      · intro op' hop'
        simp only [cons_append, mem_cons, mem_append, not_mem_nil, or_false] at hop'
        rcases hop' with rfl | hop' | hop' | rfl
        · exact ⟨hhas.1, by simp only [Opinfo.skipObject]; omega, hop.start, hop.errval⟩
        · exact hunsent op' (mem_append_left _ hop')
        · exact hunsent op' (mem_append_right _ hop')
        · exact ⟨hhas.2, Nat.one_pos, hop.start, hop.errval⟩
      · intro d
        have hmatch : op.skipObject.matches d = op.matches d := by
          rw [Bool.eq_iff_iff, matches_iff, matches_iff, hop.has.type]
          rfl
        have hmatch' : ({ op with count := 1 } : Opinfo).matches d = op.matches d := rfl
        have hskip : op.skipObject.count = op.count - 1 := rfl
        simp only [cons_append, outstanding_append, outstanding_cons, outstanding_nil, hmatch,
          hmatch', hskip]
        split <;> omega
      · refine .trans ?_ h.partition
        rw [perm_iff_count]
        intro object
        simp only [cons_append, flatMap_append, flatMap_cons, flatMap_nil, hspl, count_append,
          append_nil]
        omega
    · rw [hprod]
      refine .working ops (queued ++ [op]) sent ⟨rfl, ?_, h.running, ?_, h.executed, h.completed,
        h.tracks.congr ?_, by simp, h.refruns, ?_, h.handed⟩
      · simp [h.ready]
      · intro op' hop'
        rw [← append_assoc, mem_append, mem_singleton] at hop'
        rcases hop' with hop' | rfl
        · exact hunsent op' hop'
        · exact hop
      · intro d
        simp only [cons_append, outstanding_append, outstanding_cons, outstanding_nil]
        omega
      · refine .trans ?_ h.partition
        rw [perm_iff_count]
        intro object
        simp only [cons_append, flatMap_append, flatMap_cons, flatMap_nil, count_append, append_nil]
        omega

theorem getElem?_map_some {f : α → β} {b : β} (h : (l.map f)[i]? = some b) :
    ∃ a, b = f a ∧ l.Perm (a :: l.eraseIdx i) ∧ (l.map f).eraseIdx i = (l.eraseIdx i).map f := by
  rw [getElem?_map, Option.map_eq_some_iff] at h
  obtain ⟨a, ha, rfl⟩ := h
  obtain ⟨hi, rfl⟩ := List.getElem?_eq_some_iff.1 ha
  exact ⟨_, rfl, (getElem_cons_eraseIdx_perm hi).symm, eraseIdx_map f l i⟩

theorem Work.Working.execute (h : s.Working lookup chain rest queued sent) {remove : Ftag → Int} {refs : Refs}
    (hstep : s.step lookup (.execute i remove refs) = some s') : s'.Inv lookup chain := by
  simp only [Work.step, Option.bind_eq_bind, Option.bind_eq_some_iff, Option.some.injEq] at hstep
  obtain ⟨package, hpkg, ⟨message, nextop⟩, hmsg, rfl⟩ := hstep
  rw [h.ready] at hpkg
  obtain ⟨op, rfl, hperm, herase⟩ := getElem?_map_some hpkg
  have hmem : ∀ op' ∈ op :: queued.eraseIdx i, op' ∈ queued := fun op' hop' => hperm.symm.subset hop'
  have hop := h.unsent op (mem_append_right _ (hmem op (mem_cons_self ..)))
  have htype := hop.has.type
  simp only [turnMessage, Bool.false_eq_true, if_false, htype, executeGc, processDeleteobj, map_cons,
    map_nil, Option.some.injEq, Prod.mk.injEq] at hmsg
  obtain ⟨rfl, rfl⟩ := hmsg
  have hruns : Package.runs { ops := op :: chain.delrefs, abortops := false } .deleteObj = true ∧
      Package.runs { ops := op :: chain.delrefs, abortops := false } .deleteRef = false := by
    simp [Package.runs, htype]
  have hobjects : (deleteobj remove op).objects = op.objects := rfl
  simp only [hruns.1, hruns.2, Bool.false_eq_true, if_true, if_false]
  refine .working rest (queued.eraseIdx i) (sent ++ [deleteobj remove op]) ⟨h.gcops, ?_, ?_, ?_, ?_,
    h.completed, h.tracks.congr ?_, by simp, h.refruns, ?_, ?_⟩
  · rw [h.ready, herase]
  · simp [h.running]
  · intro op' hop'
    refine h.unsent op' ?_
    rw [mem_append] at hop' ⊢
    exact hop'.imp_right fun hop' => hmem op' (mem_cons_of_mem _ hop')
  · intro op' hop'
    rw [mem_append, mem_singleton] at hop'
    rcases hop' with hop' | rfl
    · exact h.executed op' hop'
    · exact ⟨hop.has, hop.count_pos, rfl⟩
  · intro d
    have hmatch : (deleteobj remove op).matches d = op.matches d := rfl
    have hcnt : (deleteobj remove op).count = op.count := rfl
    simp only [outstanding_append, outstanding_perm hperm, outstanding_cons, outstanding_nil, hmatch,
      hcnt]
    omega
  · refine .trans ?_ h.partition
    rw [perm_iff_count]
    intro object
    have hcnt := (hperm.flatMap_right Opinfo.objects).count_eq object
    simp only [flatMap_append, flatMap_cons, count_append, Package.leading, head?_cons,
      Option.map_some, Option.getD_some] at hcnt ⊢
    omega
  · rw [perm_iff_count]
    intro object
    have hcnt := h.handed.count_eq object
    simp only [flatMap_append, flatMap_cons, flatMap_nil, append_nil, count_append, hobjects,
      Package.leading, head?_cons, Option.map_some, Option.getD_some] at hcnt ⊢
    omega

theorem turn_of_ok {message nextop : List Opinfo} {progress : Int} {printed abortops : Bool}
    (hok : (processopinfo lookup log message).result = .ok)
    (hprog : (processopinfo lookup log message).progress = some progress) :
    Executed.turn lookup printed log
        { message := message, nextop := nextop, abortops := abortops } =
      ((processopinfo lookup log message).log,
        if printed = false ∨ progress = 0 ∨ nextop = [] then none
        else some { ops := nextop, abortops := abortops || progress < 0 }) := by
  have hlog : (resourcelogProcessop lookup printed log message).log =
      (processopinfo lookup log message).log := by
    unfold resourcelogProcessop
    dsimp only
    split <;> rfl
  have hres : (resourcelogProcessop lookup printed log message).result ≠ .ok ↔
      printed = false := by
    cases printed <;> simp [resourcelogProcessop, hok]
  unfold Executed.turn
  dsimp only
  rw [resourcelogProcessop_progress, hlog, hprog, Option.getD_some]
  simp only [hres]
  split <;> rfl

theorem Work.Working.complete (h : s.Working lookup chain rest queued sent) {printed : Bool}
    (hmask : s.Unmasked lookup (.complete i printed))
    (hstep : s.step lookup (.complete i printed) = some s') : s'.Inv lookup chain := by
  simp only [Work.step, Option.bind_eq_bind, Option.bind_eq_some_iff, Option.some.injEq] at hstep
  obtain ⟨executed, hexec, rfl⟩ := hstep
  have hunmasked := hmask executed hexec
  rw [h.running] at hexec
  obtain ⟨op, rfl, hperm, herase⟩ := getElem?_map_some hexec
  have hmem : ∀ op' ∈ op :: sent.eraseIdx i, op' ∈ sent := fun op' hop' => hperm.symm.subset hop'
  have hop := h.executed op (hmem op (mem_cons_self ..))
  have htype := hop.has.type
  have hpcs : ∀ piece ∈ op :: (rest ++ queued ++ sent.eraseIdx i),
      chain.Has piece ∧ 0 < piece.count := by
    intro piece hpiece
    rw [mem_cons, mem_append] at hpiece
    rcases hpiece with rfl | hpiece | hpiece
    · exact ⟨hop.has, hop.count_pos⟩
    · exact ⟨(h.unsent piece hpiece).has, (h.unsent piece hpiece).count_pos⟩
    · have := h.executed piece (hmem piece (mem_cons_of_mem _ hpiece))
      exact ⟨this.has, this.count_pos⟩
  have htracks : Tracks chain (op :: (rest ++ queued ++ sent.eraseIdx i)) s.completed
      (s.log.inprogress (lookup chain.streamid)) := by
    apply h.tracks.congr
    intro d
    simp only [outstanding_cons, outstanding_append, outstanding_perm hperm]
    omega
  obtain ⟨hok, htracks', progress, hprog, hzero, hpositive, hnegative⟩ :=
    htracks.complete hpcs h.completed hop.start (hunmasked op rfl htype)
  have hfilt : ([op].filter fun op => decide (op.type = .deleteObj)) = [op] := by simp [htype]
  have hdone : ∀ old ∈ s.completed ++ [op], chain.Has old := by
    intro old hold
    rw [mem_append, mem_singleton] at hold
    rcases hold with hold | rfl
    · exact h.completed old hold
    · exact hop.has
  have hhanded : ((sent.eraseIdx i).flatMap Opinfo.objects ++
      (s.completed ++ [op]).flatMap Opinfo.objects).Perm s.handed := by
    refine .trans ?_ h.handed
    rw [perm_iff_count]
    intro object
    have hcnt := (hperm.flatMap_right Opinfo.objects).count_eq object
    simp only [flatMap_append, flatMap_cons, flatMap_nil, append_nil, count_append] at hcnt ⊢
    omega
  rw [turn_of_ok hok hprog]
  simp only [hfilt]
  by_cases hpend : rest ++ queued ++ sent.eraseIdx i = []
  · -- the last piece: its completion decides about the references
    have hne : progress ≠ 0 := fun h => hzero.1 h hpend
    simp only [append_eq_nil_iff] at hpend
    obtain ⟨⟨rfl, rfl⟩, hsent⟩ := hpend
    have hgcops : s.gcops = [] := h.gcops
    have hrdy : s.ready = [] := h.ready
    have hobjects : s.handed.Perm chain.objects := by simpa using h.partition
    have herase' : s.running.eraseIdx i = [] := by rw [h.running, herase, hsent]; rfl
    refine .released ⟨?_, hobjects, ?_⟩
    · by_cases hprint : printed = false
      · refine .gone hgcops ?_ herase' (.inr ⟨h.refruns, .inl ?_⟩)
        · simp [hrdy, hprint]
        · simp [hprint]
      · refine .waiting chain.delrefs (false || progress < 0) hgcops ?_ herase' chain.delref_type
          chain.delrefs_ne h.refruns ?_
        · simp [hrdy, hprint, hne, chain.delrefs_ne]
        · rw [Bool.false_or, decide_eq_false_iff_not]
          constructor
          · intro hge
            exact hpositive (by omega)
          · intro hclean hlt
            exact hnegative hlt hclean
    · have := hhanded
      rw [hsent] at this
      exact (by simpa using this : Perm _ _).trans hobjects
  · have hstop : printed = false ∨ progress = 0 ∨ chain.delrefs = [] :=
      .inr (.inl (hzero.2 hpend))
    rw [if_pos hstop]
    refine .working rest queued (sent.eraseIdx i) ⟨h.gcops, ?_, ?_, h.unsent, ?_, hdone, htracks',
      hpend, h.refruns, h.partition, hhanded⟩
    · simp [h.ready]
    · rw [h.running, herase]
    · exact fun op' hop' => h.executed op' (hmem op' (mem_cons_of_mem _ hop'))

/-! ## The copy that was released -/

theorem processDeleteref_type (ops : List Opinfo) :
    ∀ refs : Refs, (∀ op ∈ ops, op.type = .deleteRef) →
      ∀ op ∈ (processDeleteref refs ops).2, op.type = .deleteRef := by
  induction ops with
  | nil => intro refs _ op hop; cases hop
  | cons op ops ih =>
    intro refs htypes op' hop'
    have hop : (deleteref refs op).2.type = op.type := by
      unfold deleteref
      dsimp only
      split
      · split
        · rfl
        · split <;> rfl
      · rfl
    rw [processDeleteref, mem_cons] at hop'
    rcases hop' with rfl | hop'
    · rw [hop]
      exact htypes op (mem_cons_self ..)
    · exact ih _ (fun op hop => htypes op (mem_cons_of_mem _ hop)) op' hop'

theorem produceGc_delrefs (chain : GcChain) : produceGc chain.delrefs = (chain.delrefs, []) :=
  produceGc_refs chain.delref_type

namespace Work.Released

variable {s s' : Work}

theorem produce (h : s.Released chain) (hstep : s.step lookup .produce = some s') : s'.Released chain := by
  simp only [Work.step, Option.ite_none_left_eq_some, Option.some.injEq] at hstep
  obtain ⟨hne, rfl⟩ := hstep
  refine ⟨?_, h.handed, h.completed⟩
  cases h.token with
  | held hgc hrd hrn hruns hclean =>
    refine .waiting chain.delrefs false ?_ ?_ hrn chain.delref_type chain.delrefs_ne hruns
      (by simpa using hclean)
    · rw [hgc, produceGc_delrefs]
    · rw [hgc, produceGc_delrefs, hrd]
      rfl
  | waiting _ _ hgc => exact absurd hgc hne
  | executed _ hgc => exact absurd hgc hne
  | skipped _ _ hgc => exact absurd hgc hne
  | gone hgc => exact absurd hgc hne

theorem execute (h : s.Released chain) {i : Nat} {remove : Ftag → Int} {refs : Refs}
    (hstep : s.step lookup (.execute i remove refs) = some s') : s'.Released chain := by
  simp only [Work.step, Option.bind_eq_bind, Option.bind_eq_some_iff, Option.some.injEq] at hstep
  obtain ⟨package, hpkg, ⟨message, nextop⟩, hmessage, rfl⟩ := hstep
  cases h.token with
  | waiting ops abortops hgc hrd hrn htypes hops hruns hclean =>
    rw [hrd] at hpkg
    obtain ⟨hi, rfl⟩ := List.getElem?_eq_some_iff.1 hpkg
    obtain rfl : i = 0 := by simpa using hi
    cases ops with
    | nil => exact absurd rfl hops
    | cons op ops =>
      have htype := htypes op (mem_cons_self ..)
      cases abortops with
      | true =>
        simp only [getElem_cons_zero, turnMessage, if_true, Option.some.injEq,
          Prod.mk.injEq] at hmessage
        obtain ⟨hmsg, rfl⟩ := hmessage
        refine ⟨.skipped message ops hgc (by simp [hrd]) (by simp [hrn]) ?_ ?_ ?_, ?_,
          h.completed⟩
        · intro op' hop'
          rw [← hmsg, mem_append, mem_cons] at hop'
          rcases hop' with (rfl | hop') | hop'
          · exact htype
          · exact htypes op' (mem_cons_of_mem _ hop')
          · exact htypes op' (mem_cons_of_mem _ hop')
        · simpa [Package.runs] using hruns
        · simpa using hclean
        · simpa [Package.runs] using h.handed
      | false =>
        simp only [getElem_cons_zero, turnMessage, Bool.false_eq_true, if_false, htype, executeGc,
          Option.some.injEq, Prod.mk.injEq] at hmessage
        obtain ⟨hmsg, rfl⟩ := hmessage
        refine ⟨.executed message hgc (by simp [hrd]) (by simp [hrn]) ?_ ?_ ?_, ?_, h.completed⟩
        · rw [← hmsg]
          exact processDeleteref_type _ refs htypes
        · simp [Package.runs, htype, hruns]
        · simpa using hclean
        · simpa [Package.runs, htype] using h.handed
  | held _ hrd => simp [hrd] at hpkg
  | executed _ _ hrd => simp [hrd] at hpkg
  | skipped _ _ _ hrd => simp [hrd] at hpkg
  | gone _ hrd => simp [hrd] at hpkg

theorem complete (h : s.Released chain) {i : Nat} {printed : Bool}
    (hstep : s.step lookup (.complete i printed) = some s') : s'.Released chain := by
  simp only [Work.step, Option.bind_eq_bind, Option.bind_eq_some_iff, Option.some.injEq] at hstep
  obtain ⟨executed, hexec, rfl⟩ := hstep
  have hfilt : ∀ message : List Opinfo, (∀ op ∈ message, op.type = .deleteRef) →
      (message.filter fun op => decide (op.type = .deleteObj)) = [] := by
    intro message htypes
    rw [filter_eq_nil_iff]
    intro op hop
    simp [htypes op hop]
  cases h.token with
  | executed message hgc hrd hrn htypes hruns hclean =>
    rw [hrn] at hexec
    obtain ⟨hi, rfl⟩ := List.getElem?_eq_some_iff.1 hexec
    obtain rfl : i = 0 := by simpa using hi
    simp only [getElem_cons_zero, hfilt message htypes, append_nil]
    refine ⟨.gone hgc ?_ (by simp [hrn]) (.inl ⟨hruns, hclean⟩), h.handed, h.completed⟩
    simp [hrd, Executed.turn]
  | skipped message nextop hgc hrd hrn htypes hruns hfail =>
    rw [hrn] at hexec
    obtain ⟨hi, rfl⟩ := List.getElem?_eq_some_iff.1 hexec
    obtain rfl : i = 0 := by simpa using hi
    simp only [getElem_cons_zero,
      hfilt message fun op hop => htypes op (mem_append_left _ hop), append_nil]
    refine ⟨?_, h.handed, h.completed⟩
    unfold Executed.turn
    dsimp only
    split
    · refine .gone hgc ?_ (by simp [hrn]) (.inr ⟨hruns, .inr hfail⟩)
      simp [hrd]
    · rename_i hgoes
      refine .waiting nextop true hgc ?_ (by simp [hrn]) ?_ ?_ hruns (by simpa using hfail)
      · simp [hrd]
      · exact fun op hop => htypes op (mem_append_right _ hop)
      · exact fun hnil => hgoes (.inr (.inr hnil))
  | held _ _ hrn => simp [hrn] at hexec
  | waiting _ _ _ _ hrn => simp [hrn] at hexec
  | gone _ _ hrn => simp [hrn] at hexec

theorem setLog (h : s.Released chain) (log : Resourcelog) :
    ({ s with log := log } : Work).Released chain := by
  refine ⟨?_, h.handed, h.completed⟩
  cases h.token with
  | held hgc hrd hrn hruns hclean => exact .held hgc hrd hrn hruns hclean
  | waiting ops abortops hgc hrd hrn htypes hops hruns hclean =>
    exact .waiting ops abortops hgc hrd hrn htypes hops hruns hclean
  | executed message hgc hrd hrn htypes hruns hclean =>
    exact .executed message hgc hrd hrn htypes hruns hclean
  | skipped message nextop hgc hrd hrn htypes hruns hfail =>
    exact .skipped message nextop hgc hrd hrn htypes hruns hfail
  | gone hgc hrd hrn hruns => exact .gone hgc hrd hrn hruns

end Work.Released

theorem Work.Inv.step (h : s.Inv lookup chain) {action : Action}
    (hfor : ∀ message, action = .other message → Foreign chain message) (hmask : s.Unmasked lookup action)
    (hstep : s.step lookup action = some s') : s'.Inv lookup chain := by
  cases h with
  | working rest queued sent h =>
    cases action with
    | produce => exact h.produce hstep
    | execute i remove refs => exact h.execute hstep
    | complete i printed => exact h.complete hmask hstep
    | other message =>
      obtain rfl := Option.some.inj hstep
      exact .working rest queued sent ⟨h.gcops, h.ready, h.running, h.unsent, h.executed, h.completed,
        h.tracks.foreign (hfor message rfl), h.pending, h.refruns, h.partition, h.handed⟩
  | released h =>
    cases action with
    | produce => exact .released (h.produce hstep)
    | execute i remove refs => exact .released (h.execute hstep)
    | complete i printed => exact .released (h.complete hstep)
    | other message =>
      obtain rfl := Option.some.inj hstep
      exact .released (h.setLog _)

/-- So does every run. -/
theorem Work.Reaches.inv (hfresh : chain.Fresh lookup log)
    (h : Work.Reaches lookup chain (Work.Unmasked lookup) log s) : s.Inv lookup chain := by
  induction h with
  | init => exact .init hfresh
  | step _ action hfor hmask hstep ih => exact ih.step hfor hmask hstep

/-- Two object deletions of one object each, and a reference deletion. -/
def sampleGcChain : GcChain where
  delobjs := [sampleDelobj 0 true 0, sampleDelobj 1 true 0]
  delrefs := [sampleDelref true]
  delobj_type := by decide
  delref_type := by decide
  delrefs_ne := by decide
  start := by decide
  errval := by decide
  count_pos := by decide
  distinct := by decide
  ctag := (sampleFtag 1 0 false).ctag
  streamid := (sampleFtag 1 0 false).streamid
  stream := by decide

/-- Both packages are filled, executed and logged one after the other, where the deletion of the
first object ends in `errval`, and then the references that were released. -/
def sampleActions (errval : Int) : List Action :=
  let remove := fun ftag : Ftag => if ftag.objno = 0 then errval else 0
  [.produce, .produce, .execute 0 remove [], .complete 0 true, .execute 0 remove [],
    .complete 0 true, .execute 0 remove []]

def Work.run (lookup : List Char → Nat) (s : Work) : List Action → Option Work
  | [] => some s
  | action :: actions => (s.step lookup action).bind fun s => s.run lookup actions

def Work.Admits (lookup : List Char → Nat) (condition : Work → Action → Prop) (s : Work) :
    List Action → Prop
  | [] => True
  | action :: actions =>
    (∀ message, action ≠ .other message) ∧ condition s action ∧
      ∀ s' ∈ s.step lookup action, s'.Admits lookup condition actions

theorem Work.Reaches.run {condition : Work → Action → Prop} (h : Work.Reaches lookup chain condition log s)
    {actions : List Action} (hadmits : s.Admits lookup condition actions)
    (hrun : s.run lookup actions = some s') : Work.Reaches lookup chain condition log s' := by
  induction actions generalizing s with
  | nil =>
    obtain rfl := Option.some.inj hrun
    exact h
  | cons action actions ih =>
    obtain ⟨s₁, hstep, hrun⟩ := Option.bind_eq_some_iff.1 hrun
    obtain ⟨hoth, hcond, hadmits⟩ := hadmits
    refine ih (h.step action (fun message heq => absurd heq (hoth message)) hcond hstep)
      (hadmits s₁ hstep) hrun

def sampleWork (errval : Int) : Option Work :=
  (Work.init (fun _ => 0) (Resourcelog.init .modify) sampleGcChain.ops).run (fun _ => 0)
    (sampleActions errval)

theorem admits_anything (actions : List Action) (h : ∀ action ∈ actions, ∀ message, action ≠ .other message)
    (s : Work) : s.Admits lookup (fun _ _ => True) actions := by
  induction actions generalizing s with
  | nil => trivial
  | cons action actions ih =>
    exact ⟨h action (mem_cons_self ..), trivial, fun s' _ =>
      ih (fun action hmem => h action (mem_cons_of_mem _ hmem)) s'⟩

/-- The deletion of the first object fails; the other completes last, without an error, and the
references are deleted all the same. -/
theorem hidden_failure_released :
    sampleGcChain.Fresh (fun _ => 0) (Resourcelog.init .modify) ∧
      ∃ s, Work.Reaches (fun _ => 0) sampleGcChain (fun _ _ => True) (Resourcelog.init .modify) s ∧
        s.refruns = 1 ∧ ¬ Clean s.completed ∧ ¬ s.Distributed sampleGcChain := by
  obtain ⟨s, hs⟩ := Option.isSome_iff_exists.1 (show (sampleWork 5).isSome = true by decide)
  have hrefruns : (sampleWork 5).map Work.refruns = some 1 := by decide
  have herrvals : (sampleWork 5).map (fun s => s.completed.map Opinfo.errval) = some [5, 0] := by
    decide
  rw [hs] at hrefruns herrvals
  have hone : s.refruns = 1 := Option.some.inj hrefruns
  have hfailed : ¬ Clean s.completed := by
    intro hclean
    have hmap : s.completed.map Opinfo.errval = [5, 0] := Option.some.inj herrvals
    obtain ⟨op, hop, herrval⟩ := mem_map.1 (hmap ▸ mem_cons_self : (5 : Int) ∈ _)
    rw [hclean op hop] at herrval
    cases herrval
  refine ⟨⟨rfl, by decide⟩, s, Work.Reaches.run .init (admits_anything _ ?_ _) hs, hone, hfailed,
    fun h => hfailed (h.after hone).2⟩
  simp [sampleActions]

/-- Whoever executes the packages of a chain, and in whatever order: its objects are handed to
`process_deleteobj` each in one package, and one copy of its `DEL-REF` segment is executed, after
all of the objects were deleted — as long as no error is hidden behind the completion of another
op. -/
theorem reaches_distributed (hfresh : chain.Fresh lookup log)
    (h : Work.Reaches lookup chain (Work.Unmasked lookup) log s) : s.Distributed chain :=
  (h.inv hfresh).distributed

/-- Without the failure the run is as it should be. -/
theorem sampleWork_distributed :
    ∃ s, sampleWork 0 = some s ∧ s.refruns = 1 ∧ s.Distributed sampleGcChain := by
  obtain ⟨s, hs⟩ := Option.isSome_iff_exists.1 (show (sampleWork 0).isSome = true by decide)
  have hrefruns : (sampleWork 0).map Work.refruns = some 1 := by decide
  rw [hs] at hrefruns
  have hfresh : sampleGcChain.Fresh (fun _ => 0) (Resourcelog.init .modify) := ⟨rfl, by decide⟩
  refine ⟨s, hs, Option.some.inj hrefruns,
    reaches_distributed hfresh (Work.Reaches.run .init ?_ hs)⟩
  refine ⟨by simp, trivial, fun s₁ h₁ => ?_⟩
  obtain rfl := Option.some.inj h₁
  refine ⟨by simp, trivial, fun s₂ h₂ => ?_⟩
  obtain rfl := Option.some.inj h₂
  refine ⟨by simp, trivial, fun s₃ h₃ => ?_⟩
  obtain rfl := Option.some.inj h₃
  refine ⟨by simp, ?_, fun s₄ h₄ => ?_⟩
  · intro executed hexecuted op hmessage htype found hfound
    obtain rfl := Option.some.inj hexecuted
    obtain rfl := (List.cons.inj hmessage).1
    obtain rfl := Option.some.inj hfound
    decide
  obtain rfl := Option.some.inj h₄
  refine ⟨by simp, trivial, fun s₅ h₅ => ?_⟩
  obtain rfl := Option.some.inj h₅
  refine ⟨by simp, ?_, fun s₆ h₆ => ⟨by simp, trivial, fun s₇ _ => trivial⟩⟩
  intro executed hexecuted op hmessage htype found hfound
  obtain rfl := Option.some.inj hexecuted
  obtain rfl := (List.cons.inj hmessage).1
  obtain rfl := Option.some.inj hfound
  decide

end Marfs.Rman
