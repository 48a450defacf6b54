import Marfs.Gc.Gaps
import Marfs.Rman.WalkExec

/-!
# Bookkeeping over a GC pass

A GC pass walks a stream and executes what it dispatches.  Between two live files the pending
reference deletion names everything the walker met, so that executing it removes the references
between them and records their number (`GapOp`).  One invariant follows the walker (`WalkInv`),
another the references as executed so far (`DoneInv`): they form a walkable stream at every point,
the part behind the active index still to be done.
-/

namespace Marfs.Gc

open Rman Datastream Tagging Rman.Streamwalker

variable {objtarget : Ftag → Option NeLocation} {refs : Refs}

/-! ## The pending reference deletion -/

/-- Executing the op removes what is left between the anchor and the limit. -/
structure GapOp (refs : Refs) (anchor limit : Nat) (eos : Bool) (op : Opinfo) : Prop where
  prev_eq : op.delrefinf.prevActiveIndex = anchor
  lt : anchor < limit
  range : (anchor < op.ftag.fileno ∧ op.ftag.fileno + op.count = limit) ∨
    (op.count = 0 ∧ op.ftag.fileno ≤ anchor + 1 ∧ limit = anchor + 1)
  clear : ∀ j, anchor < j → j < op.ftag.fileno → refs.file j = none
  eos_eq : op.delrefinf.eos = eos
  count_ne : eos = true → op.count ≠ 0
  delzero : op.delrefinf.delzero = true → anchor = 0

/-- The pending reference deletion between the active index and the walker's position: until an op
counts a reference, the walker has not moved on from the active index. -/
structure PendingGap (refs : Refs) (anchor position limit : Nat) (eos : Bool)
    (pending : Option Opinfo) : Prop where
  fresh : (∀ op, pending = some op → op.count = 0) → anchor = position
  gapOp : ∀ op, pending = some op → GapOp refs anchor limit eos op

namespace GapOp

variable {anchor limit : Nat} {eos : Bool} {op : Opinfo}

theorem refcnt_eq (h : GapOp refs anchor limit eos op) : (finalGctag op).refcnt = limit - 1 - anchor := by
  have hrange := h.range
  simp only [finalGctag, deleterefGctag, h.prev_eq]
  split <;> omega

theorem noteDelzero (h : GapOp refs anchor limit eos op) (hzero : anchor = 0) :
    GapOp refs anchor limit eos (noteDelzero op) :=
  ⟨h.prev_eq, h.lt, h.range, h.clear, h.eos_eq, h.count_ne, fun _ => hzero⟩

theorem collapsed {done done' : Refs} (h : GapOp refs anchor limit eos op) (hty : op.type = .deleteRef)
    (hahead : ∀ j, anchor ≤ j → done.file j = refs.file j) (hdel : DeletedRefs done done' op) :
    Collapsed done done' anchor limit (finalGctag op) := by
  have hrange := h.range
  have hlt := h.lt
  have hcov : ∀ j, op.CoversRef j ↔ op.ftag.fileno ≤ j ∧ j < op.ftag.fileno + op.count :=
    fun j => by simp [Opinfo.CoversRef, hty]
  refine ⟨?_, fun j hlo hhi => ?_, fun j hj => ?_⟩
  · rw [hdel anchor, if_neg (by rw [hcov]; omega), if_pos h.prev_eq.symm]
  · rw [hdel j, h.prev_eq]
    by_cases hc : op.CoversRef j
    · rw [if_pos hc]
    · rw [hcov] at hc
      rw [if_neg (by rwa [hcov]), if_neg (by omega), hahead j (by omega)]
      exact h.clear j hlo (by omega)
  · rw [hdel j, h.prev_eq, if_neg (by rw [hcov]; omega), if_neg (by omega)]

theorem records {done : Refs} (h : GapOp refs anchor limit eos op)
    (hnext : eos = false → ∃ file, done.file limit = some file)
    (hlast : eos = true → ∀ j, limit ≤ j → done.file j = none) :
    Records done anchor limit (finalGctag op) where
  lt := h.lt
  refcnt_eq := h.refcnt_eq
  next heos := hnext (h.eos_eq.symm.trans heos)
  last heos := by
    have heos' : eos = true := h.eos_eq.symm.trans heos
    refine ⟨?_, hlast heos'⟩
    have hcnt := h.count_ne heos'
    have hrange := h.range
    rw [h.refcnt_eq]
    omega
  delzero hdz := h.delzero hdz

end GapOp

/-! ## The walker -/

/-- The walker stands at a reference of the stream, and holds its tags. -/
structure Located (refs : Refs) (walker : Streamwalker) : Prop where
  file : ∃ file, refs.file walker.fileno = some file ∧ file.ftag = some walker.ftag ∧
    gapLength file = walker.gctag.refcnt ∧ (file.gctag.getD Gctag.none).eos = walker.gctag.eos
  objno_eq : walker.objno = datastreamFilebounds walker.ftag

/-- The walker of a GC pass, at the head of the loop. -/
structure WalkInv (refs : Refs) (gcthresh : Int) (walker : Streamwalker) : Prop where
  gcthresh_eq : walker.gcthresh = gcthresh
  file : ∃ file, refs.file walker.fileno = some file ∧ file.ftag = some walker.ftag ∧
    walker.gctag = file.gctag.getD Gctag.none
  objno_eq : walker.objno = datastreamFilebounds walker.ftag
  one : OneDelref walker.gcops
  active_le : walker.activeindex ≤ walker.fileno
  anchor : ∃ file, refs.file walker.activeindex = some file
  collected : ∀ {j file}, walker.activeindex < j → j ≤ walker.fileno → refs.file j = some file →
    file.stat.eligible gcthresh = true
  pend : PendingGap refs walker.activeindex walker.fileno
    (walker.fileno + (1 + walker.gctag.refcnt)) walker.fileEos walker.pending
  alive : walker.activeindex ≠ 0 → walker.activeindex = walker.fileno ∨ walker.objno = 0 →
    walker.activefiles ≠ 0

section Walker

variable {gcthresh : Int} {walker walker' : Streamwalker}

theorem recoverInprog_complete (h : walker.gctag.inprog = false)
    (hrec : walker.recoverInprog = some walker') : walker' = walker := by
  rcases recoverInprog_some hrec with ⟨-, rfl⟩ | ⟨hcond, -⟩
  · rfl
  · rw [h] at hcond
    cases hcond.2.1

theorem fileEos_eq_false (hcont : walker.Continues)
    (heos : ¬ (walker.gctag.refcnt ≠ 0 ∧ walker.gctag.eos = true)) : walker.fileEos = false := by
  simp only [fileEos, hcont.1, hcont.2, Bool.false_or]
  simpa using heos

theorem WalkInv.located (h : WalkInv refs gcthresh walker) : Located refs walker := by
  obtain ⟨file, hfile, htag, hgct⟩ := h.file
  exact ⟨⟨file, hfile, htag, by rw [gapLength, hgct], by rw [hgct]⟩, h.objno_eq⟩

theorem Located.fileEos_iff (hs : Walkable refs) (h : Located refs walker) :
    ∃ file, refs.file walker.fileno = some file ∧ file.ftag = some walker.ftag ∧
      gapLength file = walker.gctag.refcnt ∧
      (StreamEnds file walker.ftag ↔ walker.fileEos = true) := by
  obtain ⟨file, hfile, htag, hgap, heos⟩ := h.file
  refine ⟨file, hfile, htag, hgap, ?_⟩
  have hlisted : walker.gctag.eos = true → walker.gctag.refcnt ≠ 0 := by
    rw [← heos, ← hgap]
    exact hs.eosGap hfile
  simp only [StreamEnds, fileEos, heos, Bool.or_eq_true, Bool.and_eq_true, decide_eq_true_eq,
    or_assoc]
  have : walker.gctag.eos = true ↔ walker.gctag.refcnt ≠ 0 ∧ walker.gctag.eos = true :=
    ⟨fun he => ⟨hlisted he, he⟩, And.right⟩
  rw [← this]

theorem Located.behind_end (hs : Walkable refs) (h : Located refs walker)
    (heos : walker.fileEos = true) {j : Nat} (hj : walker.fileno < j) : refs.file j = none := by
  obtain ⟨file, hfile, htag, -, hiff⟩ := h.fileEos_iff hs
  exact hs.last hfile htag (hiff.2 heos) hj

theorem Located.leave (hs : Walkable refs) (h : Located refs walker) (hprog : walker.gctag.inprog = false)
    (hstep : LeaveStep refs walker walker') : walker' = walker ∧ walker.fileEos = true := by
  obtain ⟨file, hfile, htag, hgap, hiff⟩ := h.fileEos_iff hs
  cases hstep with
  | ended hcont heq =>
    refine ⟨heq, ?_⟩
    by_contra hne
    simp only [fileEos, Bool.or_eq_true, not_or, Bool.not_eq_true] at hne
    exact hcont ⟨hne.1.1, hne.1.2⟩
  | gctagEos hcont hrec heos =>
    obtain rfl := recoverInprog_complete hprog hrec
    exact ⟨rfl, by simp [fileEos, heos.1, heos.2]⟩
  | untagged hcont walker₁ _ next hrec hnext huntag =>
    obtain ⟨ftag, htag'⟩ := hs.tagged hnext
    rw [huntag] at htag'
    cases htag'
  | missing hcont walker₁ hrec _ _ _ heos hmiss =>
    obtain rfl := recoverInprog_complete hprog hrec
    have hno := fileEos_eq_false hcont heos
    obtain ⟨next, hnext⟩ := hs.continued hfile htag (by rw [hiff, hno]; exact Bool.false_ne_true)
    rw [hgap, hmiss] at hnext
    cases hnext

structure Next (refs : Refs) (walker loaded : Streamwalker) (file : RefFile) (ftag : Ftag) :
    Prop where
  cont : walker.fileEos = false
  file_eq : refs.file (walker.fileno + (1 + walker.gctag.refcnt)) = some file
  ftag_some : file.ftag = some ftag
  fileno_eq : ftag.fileno = walker.fileno + (1 + walker.gctag.refcnt)
  objno_le : walker.objno ≤ ftag.objno
  gap : ∀ j, walker.fileno < j → j < ftag.fileno → refs.file j = none
  loaded_eq : loaded = walker.loadFile file true
  ftag_eq : loaded.ftag = ftag

theorem Located.next (hs : Walkable refs) (h : Located refs walker) (hprog : walker.gctag.inprog = false)
    {gcops rbldops : List Opinfo} (hstep : VisitStep objtarget refs walker walker' gcops rbldops) :
    ∃ loaded file ftag, Next refs walker loaded file ftag ∧
      loaded.visitFile objtarget walker.gctag.delzero (1 + walker.gctag.refcnt) =
        some (walker', gcops, rbldops) := by
  obtain ⟨hcont, walker₁, file, ftag, hrec, heos, hfile, htag, hvisit⟩ := hstep
  obtain rfl := recoverInprog_complete hprog hrec
  obtain ⟨cur, hcur, hcurtag, hgap, -⟩ := h.fileEos_iff hs
  have hno := hs.fileno_eq hfile htag
  refine ⟨_, file, ftag, ⟨fileEos_eq_false hcont heos, hfile, htag, hno, ?_, ?_, rfl, ?_⟩, hvisit⟩
  · rw [h.objno_eq]
    exact (hs.next hcur hcurtag (hgap ▸ hfile) htag).1
  · exact fun j hlo hhi => hs.gap hcur j hlo (by omega)
  · simp [loadFile, htag]

section Step

variable {loaded : Streamwalker} {file : RefFile} {ftag : Ftag}

theorem WalkInv.activeindex_zero (h : WalkInv refs gcthresh walker)
    (hobj : walker.objno = 0) (hfiles : walker.activefiles = 0) : walker.activeindex = 0 := by
  by_contra hne
  exact h.alive hne (.inr hobj) hfiles

theorem Next.transition (hn : Next refs walker loaded file ftag)
    (h : WalkInv refs gcthresh walker) (prevdelzero : Bool) :
    PendingGap refs walker.activeindex walker.fileno ftag.fileno false
      (loaded.transitionPending prevdelzero) := by
  have hpend := h.pend
  rw [hn.cont, ← hn.fileno_eq] at hpend
  have hload := hn.loaded_eq
  have hpending : loaded.pending = walker.pending := by rw [hload]; rfl
  unfold transitionPending
  split
  · rename_i hleav
    have hzero : walker.activeindex = 0 := by
      obtain ⟨⟨-, hfiles, -⟩, hobj⟩ := hleav
      rw [hload] at hobj hfiles
      exact h.activeindex_zero hobj hfiles
    rw [hpending, hn.ftag_eq]
    cases hp : walker.pending with
    | some op =>
      rw [hp] at hpend
      refine ⟨fun hcnt => hpend.fresh fun op' hop' => ?_, fun op' hop' => ?_⟩
      · obtain rfl := Option.some.inj hop'
        have hcnt' := hcnt _ rfl
        exact hcnt'
      · obtain rfl := Option.some.inj hop'
        exact (hpend.gapOp op rfl).noteDelzero hzero
    | none =>
      have hat : walker.activeindex = walker.fileno := hpend.fresh fun op hop => by
        rw [hp] at hop; cases hop
      refine ⟨fun _ => hat, fun op' hop' => ?_⟩
      obtain rfl := Option.some.inj hop'
      have hno := hn.fileno_eq
      refine ⟨hzero.symm, by omega, .inl ⟨?_, rfl⟩, fun j hlo hhi => ?_, rfl,
        fun hf => absurd hf Bool.false_ne_true, fun _ => hzero⟩
      · change walker.activeindex < ftag.fileno
        omega
      · exact hn.gap j (by omega) hhi
  · rw [hpending]
    exact hpend

theorem PendingGap.addReference {anchor position limit : Nat} {walker₂ : Streamwalker}
    {pending : Option Opinfo} {eos : Bool} {op : Opinfo}
    (h : PendingGap refs anchor position limit false pending) (hact : walker₂.activeindex = anchor)
    (hno : walker₂.ftag.fileno = limit) (hlt : anchor < limit)
    (hgap : ∀ j, position < j → j < limit → refs.file j = none)
    (hop : walker₂.addReference eos (pending.getD (newOperation .deleteRef walker₂.ftag)) =
      some op) : op.count ≠ 0 ∧ GapOp refs anchor (limit + (1 + walker₂.gctag.refcnt)) eos op := by
  have hbase : (pending.getD (newOperation .deleteRef walker₂.ftag)).delrefinf.delzero = true →
      anchor = 0 := by
    cases pending with
    | none => exact fun hf => by cases hf
    | some op => exact (h.gapOp op rfl).delzero
  obtain ⟨-, ⟨hne, -, hlo, hcnt, hinfo⟩ | ⟨hzero, hlo, hcnt, hinfo⟩⟩ := addReference_some hop
  · -- an op that counts references is the pending one
    cases pending with
    | none => exact absurd rfl hne
    | some base =>
      have hg := h.gapOp base rfl
      have hrange := hg.range
      simp only [Option.getD_some] at hne hlo hcnt hinfo
      refine ⟨by omega, by rw [hinfo]; exact hg.prev_eq, by omega, by omega, ?_, ?_,
        fun _ => by omega, by rw [hinfo]; exact hg.delzero⟩
      · rw [hlo]; exact hg.clear
      · rw [hinfo, hg.eos_eq, Bool.false_or]
  · -- otherwise the walker is still at the active index, and nothing lies between
    have hat : anchor = position := h.fresh fun base hb => by
      rw [hb] at hzero; exact hzero
    refine ⟨by omega, by rw [hinfo]; exact hact, by omega, by omega, fun j hj hj' => ?_,
      by rw [hinfo], fun _ => by omega, by rw [hinfo]; exact hbase⟩
    exact hgap j (by omega) (by omega)

theorem WalkInv.of_live (hth : loaded.gcthresh = gcthresh) (hfile : refs.file ftag.fileno = some file)
    (htag : file.ftag = some ftag) (hload : loaded.ftag = ftag)
    (hgct : loaded.gctag = file.gctag.getD Gctag.none) (hv : Visited loaded walker')
    (hops : walker'.gcops = []) (hidx : walker'.activeindex = loaded.ftag.fileno)
    (hfiles : walker'.activefiles ≠ 0) : WalkInv refs gcthresh walker' := by
  have hfno : walker'.fileno = ftag.fileno := by rw [hv.fileno_eq, hload]
  have hidx' : walker'.activeindex = walker'.fileno := by rw [hidx, hload, hfno]
  have hnone : walker'.pending = none := by rw [Streamwalker.pending, hops]; rfl
  exact
    { gcthresh_eq := hv.gcthresh_eq.trans hth
      file := ⟨file, by rw [hfno]; exact hfile, by rw [hv.ftag_eq, hload, htag],
        hv.gctag_eq.trans hgct⟩
      objno_eq := by rw [hv.objno_eq, hv.ftag_eq]
      one := by rw [hops]; simp
      active_le := le_of_eq hidx'
      anchor := ⟨file, by rw [hidx', hfno]; exact hfile⟩
      collected := fun hlo hhi => by omega
      pend := ⟨fun _ => hidx', fun op hop => by rw [hnone] at hop; cases hop⟩
      alive := fun _ _ => hfiles }

theorem WalkInv.visit (hgc : gcthresh ≠ 0) (hs : Walkable refs) (h : WalkInv refs gcthresh walker)
    (hprog : walker.gctag.inprog = false) {gcops rbldops : List Opinfo}
    (hstep : VisitStep objtarget refs walker walker' gcops rbldops) :
    WalkInv refs gcthresh walker' ∧ walker'.fileno = walker.fileno + (1 + walker.gctag.refcnt) ∧
      ∃ file, refs.file walker'.fileno = some file ∧
        ((file.stat.eligible gcthresh = false ∧ walker'.activeindex = walker'.fileno ∧
            walker'.gcops = [] ∧ OneDelref gcops ∧
            PendingGap refs walker.activeindex walker.fileno walker'.fileno false
              (delrefOp gcops)) ∨
          (file.stat.eligible gcthresh = true ∧ walker'.activeindex = walker.activeindex ∧
            gcops = [])) := by
  obtain ⟨loaded, file, ftag, hn, hvisit⟩ := h.located.next hs hprog hstep
  have hload := hn.loaded_eq
  have hth : loaded.gcthresh = gcthresh := by rw [hload]; exact h.gcthresh_eq
  have hstat : loaded.stval = file.stat := by rw [hload]; rfl
  have hgct : loaded.gctag = file.gctag.getD Gctag.none := by rw [hload]; rfl
  have hidx : loaded.activeindex = walker.activeindex := by rw [hload]; rfl
  have hactive : loaded.activefiles = walker.activefiles := by rw [hload]; rfl
  have hobj : loaded.objno = walker.objno := by rw [hload]; rfl
  have hone : OneDelref loaded.gcops := by rw [hload]; exact h.one
  have hno := hn.fileno_eq
  have hle := h.active_le
  have htrans := hn.transition h walker.gctag.delzero
  -- a file in object zero shares it with every file since the active index
  have hshare : walker.activeindex ≠ 0 → ftag.objno = 0 → loaded.transitionActive ≠ 0 := by
    intro hne hzero
    have hwalker : walker.objno = 0 := Nat.eq_zero_of_le_zero (hzero ▸ hn.objno_le)
    have htr : loaded.transitionActive = walker.activefiles := by
      rw [transitionActive, hn.ftag_eq, hobj, hzero, hwalker, if_neg (by simp), hactive]
    rw [htr]
    exact h.alive hne (.inr hwalker)
  have hfile' : refs.file ftag.fileno = some file := hno ▸ hn.file_eq
  cases helig : file.stat.eligible gcthresh with
  | false =>
    obtain ⟨-, hv, hops, hact, hfiles, heff⟩ :=
      visitFile_live (by rwa [hth]) (by rwa [hstat, hth]) hvisit
    have hfno : walker'.fileno = ftag.fileno := by rw [hv.fileno_eq, hn.ftag_eq]
    refine ⟨.of_live hth hfile' hn.ftag_some hn.ftag_eq hgct hv hops hact (by omega),
      by rw [hfno, hno], file, by rw [hfno]; exact hfile',
      .inl ⟨helig, by rw [hact, hfno, hn.ftag_eq], hops, heff.one hone, ?_⟩⟩
    rw [heff.pending_eq, hfno]
    exact htrans
  | true =>
    obtain ⟨-, hv, hnil, hact, hfiles, walker₂, op, hcur₂, hop, heff⟩ :=
      visitFile_eligible (by rwa [hth]) (by rwa [hstat, hth]) hvisit
    have hfno : walker'.fileno = ftag.fileno := by rw [hv.fileno_eq, hn.ftag_eq]
    have hftag' : walker'.ftag = ftag := by rw [hv.ftag_eq, hn.ftag_eq]
    have hft₂ : walker₂.ftag = loaded.ftag := by
      simpa [cursor] using congrArg Streamwalker.ftag hcur₂
    have hgct₂ : walker₂.gctag = loaded.gctag := by
      simpa [cursor] using congrArg Streamwalker.gctag hcur₂
    have hidx₂ : walker₂.activeindex = walker.activeindex := by
      rw [← hidx]; simpa [cursor] using congrArg Streamwalker.activeindex hcur₂
    have hfiles₂ : walker₂.activefiles = loaded.transitionActive := by
      simpa [cursor] using congrArg Streamwalker.activefiles hcur₂
    have heos' : walker'.fileEos = loaded.fileEos := by
      simp only [fileEos, hv.ftag_eq, hv.gctag_eq]
    rw [← hft₂] at hop
    obtain ⟨hcnt, hgapop⟩ := htrans.addReference hidx₂ (by rw [hft₂, hn.ftag_eq]) (by omega)
      hn.gap hop
    have hpend' : GapOp refs walker.activeindex (ftag.fileno + (1 + walker₂.gctag.refcnt))
        loaded.fileEos (walker₂.eligiblePending (datastreamFilebounds loaded.ftag) op) ∧
        (walker₂.eligiblePending (datastreamFilebounds loaded.ftag) op).count = op.count := by
      unfold eligiblePending
      split
      · rename_i hfrees
        refine ⟨hgapop.noteDelzero ?_, rfl⟩
        by_contra hne
        refine hshare hne ?_ (hfiles₂ ▸ hfrees.1.2.1)
        rw [← hn.ftag_eq, ← hft₂]
        exact hfrees.2
      · exact ⟨hgapop, rfl⟩
    refine ⟨⟨hv.gcthresh_eq.trans hth, ⟨file, ?_, ?_, hv.gctag_eq.trans hgct⟩, ?_,
      heff.one hone, ?_, ?_, ?_, ?_, ?_⟩, by rw [hfno, hno], file, ?_,
      .inr ⟨helig, hact.trans hidx, hnil⟩⟩
    · rw [hfno]; exact hfile'
    · rw [hftag', hn.ftag_some]
    · rw [hv.objno_eq, hv.ftag_eq]
    · rw [hact, hidx, hfno]; omega
    · rw [hact, hidx]; exact h.anchor
    · intro j file' hlo hhi hj
      rw [hact, hidx] at hlo
      rw [hfno] at hhi
      rcases Nat.lt_or_ge walker.fileno j with hnew | hold
      · rcases Nat.lt_or_ge j ftag.fileno with hin | hat
        · rw [hn.gap j hnew hin] at hj; cases hj
        · obtain rfl : j = ftag.fileno := by omega
          obtain rfl : file = file' := Option.some.inj (hfile'.symm.trans hj)
          exact helig
      · exact h.collected hlo hold hj
    · rw [hact, hidx, hfno, hv.gctag_eq, heos', ← hgct₂,
        show walker'.pending = _ from heff.pending_eq]
      refine ⟨fun hzero => absurd (hzero _ rfl) (by rw [hpend'.2]; exact hcnt),
        fun op' hop' => ?_⟩
      obtain rfl := Option.some.inj hop'
      exact hpend'.1
    · rw [hact, hidx, hfno, hfiles, passedActive, hn.ftag_eq]
      intro hne hcase
      have hbnds : datastreamFilebounds ftag = 0 := by
        rw [hv.objno_eq, hn.ftag_eq] at hcase
        exact hcase.resolve_left (by omega)
      have hzero : ftag.objno = 0 := by
        have := objno_le_filebounds ftag
        omega
      rw [if_neg (by omega)]
      exact hshare hne hzero
    · rw [hfno]; exact hfile'

end Step

/-! ## The start of a pass -/

def SoleEligible (refs : Refs) (gcthresh : Int) : Prop :=
  ∃ file ftag, refs.file 0 = some file ∧ file.ftag = some ftag ∧ StreamEnds file ftag ∧
    file.stat.eligible gcthresh = true

/-- The walker of a pass that deletes the whole stream: file zero is eligible, and nothing
follows it. -/
structure Sole (refs : Refs) (gcthresh : Int) (walker : Streamwalker) : Prop where
  fileno_eq : walker.fileno = 0
  file : ∃ file, refs.file 0 = some file ∧ file.ftag = some walker.ftag ∧
    walker.gctag = file.gctag.getD Gctag.none ∧ file.stat.eligible gcthresh = true
  eos : walker.fileEos = true
  one : OneDelref walker.gcops
  pend : ∃ op, walker.pending = some op ∧ op.ftag.fileno = 0 ∧ op.count = 1 ∧
    op.delrefinf.prevActiveIndex = 0

theorem WalkInv.opened {thresh : Thresholds} {rebuildloc : Option NeLocation} (hgc : thresh.gcthreshold ≠ 0)
    (hs : Walkable refs) (h : processOpenstreamwalker objtarget refs thresh rebuildloc = .opened walker) :
    walker.AtFile thresh.gcthreshold ∧ walker.fileno = 0 ∧ walker.activeindex = 0 ∧
      ((WalkInv refs thresh.gcthreshold walker ∧ ¬ SoleEligible refs thresh.gcthreshold) ∨
        Sole refs thresh.gcthreshold walker) := by
  obtain ⟨file, ftag, hfile, htag, hopen, hat, hno, hft, hgct, hst, hobj, hidx⟩ :=
    opened_some hgc h
  set initial := Streamwalker.initial thresh rebuildloc file ftag with hinit
  obtain ⟨-, hops⟩ := openFile_some initial hgc hopen
  have hftno : ftag.fileno = 0 := hs.fileno_eq hfile htag
  have hnone : initial.pending = none := rfl
  have hgctag : initial.gctag = file.gctag.getD Gctag.none := rfl
  -- both ways to read the end of the stream agree on a GCTAG that lists what it skips
  have heos : initial.openEos = walker.fileEos := by
    have hgap := hs.eosGap hfile
    simp only [openEos, fileEos, hft, hgct, hgctag]
    cases he : (file.gctag.getD Gctag.none).eos with
    | false => simp [hinit, Streamwalker.initial]
    | true =>
      have hne : (file.gctag.getD Gctag.none).refcnt ≠ 0 := hgap he
      simp [hinit, Streamwalker.initial, hne]
  have hone : OneDelref walker.gcops := by
    rcases hops with ⟨-, hops⟩ | ⟨-, heff⟩
    · rw [hops]; exact oneDelref_nil
    · exact heff.one oneDelref_nil
  have hinv : PendingGap refs 0 0 (0 + (1 + walker.gctag.refcnt)) walker.fileEos walker.pending →
      WalkInv refs thresh.gcthreshold walker := fun hpend =>
    { gcthresh_eq := hat.gcthresh_eq
      file := ⟨file, by rw [hno, hfile], by rw [hft, htag], hgct⟩
      objno_eq := by rw [hobj, hft]
      one := hone
      active_le := by omega
      anchor := ⟨file, by rw [hidx, hfile]⟩
      collected := fun hlo hhi => by omega
      pend := by rw [hidx, hno]; exact hpend
      alive := fun hne => absurd hidx hne }
  refine ⟨hat, hno, hidx, ?_⟩
  have hnotsole : initial.collects = false ∨ initial.openEos = false →
      ¬ SoleEligible refs thresh.gcthreshold := by
    rintro hcase ⟨file', ftag', hfile', htag', hends, helig⟩
    obtain rfl : file = file' := Option.some.inj (hfile.symm.trans hfile')
    obtain rfl : ftag = ftag' := Option.some.inj (htag.symm.trans htag')
    rcases hcase with hc | he
    · have hc' : initial.collects = true := helig
      rw [hc] at hc'; cases hc'
    · simp only [openEos, Bool.or_eq_false_iff, and_assoc] at he
      obtain ⟨he₁, he₂, he₃⟩ := he
      rcases hends with hend | hend | hend
      · exact absurd (hend.symm.trans he₁) Bool.noConfusion
      · exact absurd (hend.symm.trans he₂) Bool.noConfusion
      · exact absurd (hend.symm.trans he₃) Bool.noConfusion
  rcases hops with ⟨hc, hops⟩ | ⟨hcoll, heff⟩
  · refine .inl ⟨hinv ⟨fun _ => rfl, fun op hop => ?_⟩, hnotsole (.inl hc)⟩
    rw [show walker.pending = none from congrArg delrefOp hops] at hop
    cases hop
  have hpending : walker.pending = _ := heff.pending_eq
  cases he : initial.openEos with
  | true =>
    refine .inr ⟨hno, ⟨file, hfile, by rw [hft, htag], hgct, ?_⟩, heos ▸ he, hone, ?_⟩
    · rw [collects_eq] at hcoll
      exact hcoll
    · rw [hpending, he]
      obtain ⟨op, hop⟩ := Option.isSome_iff_exists.1
        (openPending_isSome initial (datastreamFilebounds initial.ftag))
      obtain ⟨-, hlo, hc, hprev, -⟩ | ⟨hf, -⟩ := openPending_some hnone hop
      · exact ⟨op, hop, hlo.trans hftno, hc, hprev⟩
      · cases hf
  | false =>
    refine .inl ⟨hinv ?_, hnotsole (.inr he)⟩
    rw [he] at hpending
    rw [← heos, he, hpending]
    refine ⟨fun _ => rfl, fun op hop => ?_⟩
    obtain ⟨hf, -⟩ | ⟨-, -, hrange, hinfo⟩ := openPending_some hnone hop
    · cases hf
    rw [hgctag, ← hgct] at hrange
    have hlo : initial.ftag.fileno = 0 := hftno
    refine ⟨by rw [hinfo], by omega, ?_, fun j hj hj' => ?_, by rw [hinfo],
      fun hf => absurd hf Bool.false_ne_true, fun _ => rfl⟩
    · rcases hrange with ⟨hzero, hc, hstart⟩ | ⟨hne, hc, hstart⟩ <;> omega
    · rcases hrange with ⟨hzero, hc, hstart⟩ | ⟨hne, hc, hstart⟩ <;> omega

end Walker

/-! ## The references as executed so far -/

/-- What is left of a stream: no file is new or changed but for its GCTAG, and file zero and the live
files are all there. -/
structure Spares (refs : Refs) (gcthresh : Int) (done : Refs) : Prop where
  source : ∀ {j file'}, done.file j = some file' →
    ∃ file, refs.file j = some file ∧ file.ftag = file'.ftag ∧ file.stat = file'.stat
  spared : ∀ {j file}, refs.file j = some file → j = 0 ∨ file.stat.eligible gcthresh = false →
    ∃ file', done.file j = some file'

theorem Spares.collapse {gcthresh : Int} {done done' : Refs} {anchor limit : Nat} {gctag : Gctag}
    (h : Spares refs gcthresh done) (hc : Collapsed done done' anchor limit gctag)
    (hcollected : ∀ {j file}, anchor < j → j < limit → refs.file j = some file →
      file.stat.eligible gcthresh = true) : Spares refs gcthresh done' := by
  refine ⟨fun hj => ?_, fun {j file} hj hspare => ?_⟩
  · obtain ⟨file₁, hfile₁, hft, hst⟩ := hc.source hj
    obtain ⟨file₀, hfile₀, hft₀, hst₀⟩ := h.source hfile₁
    exact ⟨file₀, hfile₀, hft₀.trans hft, hst₀.trans hst⟩
  · obtain ⟨file₁, hfile₁⟩ := h.spared hj hspare
    rcases Nat.lt_trichotomy j anchor with hbef | rfl | hafter
    · exact ⟨file₁, by rw [hc.rest j (.inl hbef), hfile₁]⟩
    · exact ⟨_, by rw [hc.anchor_eq, hfile₁]; rfl⟩
    · rcases Nat.lt_or_ge j limit with hin | hout
      · rw [hcollected hafter hin hj] at hspare
        exact absurd (hspare.resolve_left (by omega)) Bool.noConfusion
      · exact ⟨file₁, by rw [hc.rest j (.inr ⟨hafter, hout⟩), hfile₁]⟩

/-- The references after the chains dispatched so far: a stream that is done up to the active
index, and as it was from there on. -/
structure DoneInv (refs : Refs) (gcthresh : Int) (activeindex : Nat) (done : Refs) : Prop
    extends Spares refs gcthresh done where
  stream : Stream done
  ahead : ∀ j, activeindex ≤ j → done.file j = refs.file j
  kept : ∀ {j file}, 0 < j → j ≤ activeindex → done.file j = some file →
    file.stat.eligible gcthresh = false

namespace DoneInv

variable {gcthresh : Int} {anchor position limit : Nat} {done done' : Refs} {chain : List Opinfo}

theorem start (hs : Stream refs) : DoneInv refs gcthresh 0 refs :=
  { source := fun h => ⟨_, h, rfl, rfl⟩
    spared := fun h _ => ⟨_, h⟩
    stream := hs
    ahead := fun _ _ => rfl
    kept := fun hlo hhi => by omega }

theorem execute (h : DoneInv refs gcthresh anchor done) {eos : Bool} {op : Opinfo} (hone : OneDelref chain)
    (hop : delrefOp chain = some op) (hgap : GapOp refs anchor limit eos op)
    (hexec : executeChain done chain = some done') (hanchor : ∃ file, refs.file anchor = some file)
    (hnext : eos = false → ∃ file, refs.file limit = some file)
    (hlast : eos = true → ∀ j, limit ≤ j → refs.file j = none) :
    Stream done' ∧ Collapsed done done' anchor limit (finalGctag op) := by
  have hc := hgap.collapsed (delrefOp_type hop) h.ahead (executeChain_inv hone hop hexec)
  have hle : ∀ j, limit ≤ j → done.file j = refs.file j := fun j hj =>
    h.ahead j (by have := hgap.lt; omega)
  obtain ⟨file, hfile⟩ := hanchor
  have hfile' : done.file anchor = some file := by rw [h.ahead anchor le_rfl, hfile]
  refine ⟨h.stream.collapse hfile' hc (hgap.records ?_ ?_) rfl, hc⟩
  · exact fun he => by rw [hle limit le_rfl]; exact hnext he
  · exact fun he j hj => by rw [hle j hj]; exact hlast he j hj

theorem dispatch (h : DoneInv refs gcthresh anchor done) (hone : OneDelref chain)
    (hpend : PendingGap refs anchor position limit false (delrefOp chain))
    (hexec : executeChain done chain = some done') {file : RefFile} (hfile : refs.file limit = some file)
    (hlive : file.stat.eligible gcthresh = false) (hanchor : ∃ file, refs.file anchor = some file)
    (hlt : anchor < limit) (hcollected : ∀ {j file}, anchor < j → j < limit → refs.file j = some file →
      file.stat.eligible gcthresh = true) (hgap : ∀ j, position < j → j < limit → refs.file j = none) :
    DoneInv refs gcthresh limit done' := by
  cases hop : delrefOp chain with
  | none =>
    obtain rfl : done = done' := by
      rw [executeChain_none hone hop] at hexec
      exact Option.some.inj hexec
    have hat : anchor = position := hpend.fresh fun op hop' => by rw [hop] at hop'; cases hop'
    refine ⟨h.toSpares, h.stream, fun j hj => h.ahead j (by omega), fun {j file'} hlo hhi hj => ?_⟩
    rcases Nat.lt_or_ge anchor j with hnew | hold
    · rw [h.ahead j (by omega)] at hj
      rcases Nat.lt_or_ge j limit with hin | hat'
      · rw [hgap j (by omega) hin] at hj; cases hj
      · obtain rfl : j = limit := by omega
        obtain rfl : file = file' := Option.some.inj (hfile.symm.trans hj)
        exact hlive
    · exact h.kept hlo hold hj
  | some op =>
    obtain ⟨hstr, hc⟩ := h.execute hone hop (hpend.gapOp op hop) hexec hanchor
      (fun _ => ⟨file, hfile⟩) (fun hf => absurd hf Bool.false_ne_true)
    refine ⟨h.toSpares.collapse hc hcollected, hstr, fun j hj => ?_,
      fun {j file'} hlo hhi hj => ?_⟩
    · rw [hc.rest j (.inr ⟨by omega, hj⟩), h.ahead j (by omega)]
    · rcases Nat.lt_or_ge anchor j with hnew | hold
      · rcases Nat.eq_or_lt_of_le hhi with rfl | hin
        · rw [hc.rest j (.inr ⟨hlt, le_rfl⟩), h.ahead j (by omega)] at hj
          obtain rfl : file = file' := Option.some.inj (hfile.symm.trans hj)
          exact hlive
        · rw [hc.gone j hnew hin] at hj; cases hj
      · obtain ⟨file₀, hfile₀, -, hst⟩ := hc.source hj
        exact hst ▸ h.kept hlo hold hfile₀

end DoneInv

end Marfs.Gc
