import Marfs.Gc.Pass

/-!
# A second GC pass

A walk over a stream in which only file zero may be eligible, and in which the objects of an
eligible file zero are settled, links no GC op (`Settled.quiet`).  A pass leaves such a stream unless
file zero is eligible and no later file is live: file zero is only collected when it is the last
reference, which takes a pass of its own.  Two further streams are excluded here, on which the
object deletions at file zero are not settled by one pass: the pass overwrites a GCTAG that already
noted the deletion of object zero, or file zero spans objects the first live file has no part in.
-/

namespace Marfs.Gc

open Rman Datastream Tagging Rman.Streamwalker

variable {objtarget : Ftag → Option NeLocation} {refs : Refs} {gcthresh : Int}

/-! ## Settled streams -/

/-- Only file zero may be eligible, and then later files follow, all objects it has to itself are
known to be deleted, and the next file does not start behind its last object unless that is a
deleted object zero. -/
structure Settled (refs : Refs) (gcthresh : Int) : Prop where
  stream : Stream refs
  dead : ∀ {j file}, 0 < j → refs.file j = some file → file.stat.eligible gcthresh = false
  zero : ∀ {file ftag}, refs.file 0 = some file → file.ftag = some ftag →
    file.stat.eligible gcthresh = true →
    ¬ StreamEnds file ftag ∧
      (datastreamFilebounds ftag = 0 ∨ (file.gctag.getD Gctag.none).delzero = true) ∧
      ∀ {next nexttag}, refs.file (1 + gapLength file) = some next → next.ftag = some nexttag →
        nexttag.objno = datastreamFilebounds ftag ∨
          (datastreamFilebounds ftag = 0 ∧ (file.gctag.getD Gctag.none).delzero = true)

/-- No GC op is pending, and a live file uses the walker's object, unless the walker is at an
eligible file zero. -/
structure Quiet (refs : Refs) (gcthresh : Int) (walker : Streamwalker) : Prop where
  walk : WalkInv refs gcthresh walker
  nil : walker.gcops = []
  files : walker.activefiles = 0 →
    walker.fileno = 0 ∧ ∃ file, refs.file 0 = some file ∧ file.stat.eligible gcthresh = true

section Quiet

variable {walker walker' : Streamwalker}

theorem Quiet.visit (hgc : gcthresh ≠ 0) (hs : Settled refs gcthresh) (h : Quiet refs gcthresh walker)
    {gcops rbldops : List Opinfo} (hstep : VisitStep objtarget refs walker walker' gcops rbldops) :
    Quiet refs gcthresh walker' ∧ gcops = [] := by
  have hprog := h.walk.complete hs.stream
  obtain ⟨loaded, file, ftag, hn, hvisit⟩ := h.walk.located.next hs.stream.toWalkable hprog hstep
  have hload := hn.loaded_eq
  have hth : loaded.gcthresh = gcthresh := by rw [hload]; exact h.walk.gcthresh_eq
  have hstat : loaded.stval = file.stat := by rw [hload]; rfl
  have hlive : file.stat.eligible gcthresh = false := hs.dead (by omega) hn.file_eq
  have hquiet : ¬ loaded.LeavesDeadObj walker.gctag.delzero := by
    rintro ⟨hne, hfiles, hcond⟩
    rw [hload] at hfiles hcond
    obtain ⟨hzero, zfile, hz, helig⟩ := h.files hfiles
    obtain ⟨cur, hcur, hcurtag, hgct⟩ := h.walk.file
    rw [hzero] at hcur
    obtain rfl : zfile = cur := Option.some.inj (hz.symm.trans hcur)
    obtain ⟨-, -, hnext⟩ := hs.zero hz hcurtag helig
    have hgap : gapLength zfile = walker.gctag.refcnt := by rw [gapLength, hgct]
    have hfile := hn.file_eq
    rw [hzero, Nat.zero_add, ← hgap] at hfile
    have hobj := h.walk.objno_eq
    rcases hnext hfile hn.ftag_some with hsame | ⟨hbnds, hdz⟩
    · refine hne ?_
      rw [hn.ftag_eq, hsame, hload]
      exact hobj.symm
    · rcases hcond with hne' | hdz'
      · exact hne' (hobj.trans hbnds)
      · rw [hgct, hdz] at hdz'
        cases hdz'
  obtain ⟨-, hv, hops, -, hfiles, walker₁, h₁, rfl⟩ :=
    visitFile_live_transition (by rwa [hth]) (by rwa [hstat, hth]) hvisit
  refine ⟨⟨(h.walk.visit hgc hs.stream.toWalkable hprog hstep).1, hops, fun hf => ?_⟩, ?_⟩
  · omega
  · rw [objectTransition_quiet (by rwa [hth]) hquiet h₁, hload]
    exact h.nil

theorem Quiet.opened {thresh : Thresholds} {rebuildloc : Option NeLocation}
    (hgc : thresh.gcthreshold ≠ 0) (hs : Settled refs thresh.gcthreshold)
    (hopen : processOpenstreamwalker objtarget refs thresh rebuildloc = .opened walker) :
    Quiet refs thresh.gcthreshold walker := by
  obtain ⟨-, hno, -, hinv⟩ := WalkInv.opened hgc hs.stream.toWalkable hopen
  obtain ⟨file, ftag, hfile, htag, hinit, -⟩ := opened_some hgc hopen
  set initial := Streamwalker.initial thresh rebuildloc file ftag with hinitial
  obtain ⟨hcur, -⟩ := openFile_some initial hgc hinit
  have hzero := fun helig => hs.zero hfile htag helig
  have hwalk : WalkInv refs thresh.gcthreshold walker := by
    rcases hinv with ⟨hwalk, -⟩ | hsole
    · exact hwalk
    · obtain ⟨file', ftag', hfile', htag', hends, helig⟩ := hsole.soleEligible
      exact absurd hends (hs.zero hfile' htag' helig).1
  refine ⟨hwalk, ?_, fun hfiles => ⟨hno, file, hfile, ?_⟩⟩
  · refine openFile_quiet (fun hc => ?_) hinit
    obtain ⟨hends, hobjs, -⟩ := hzero hc
    refine ⟨?_, fun ⟨hb, hd⟩ => ?_⟩
    · by_contra hne
      simp only [openEos, Bool.not_eq_false, Bool.or_eq_true, or_assoc] at hne
      exact hends hne
    · rcases hobjs with hobjs | hobjs
      · exact hb.elim (fun hb => hb hobjs) Bool.noConfusion
      · rw [show initial.gctag = file.gctag.getD Gctag.none from rfl, hobjs] at hd
        cases hd
  · by_contra hne
    have hlive : file.stat.eligible thresh.gcthreshold = false := by simpa using hne
    have hc : initial.collects = false := hlive
    have : walker.activefiles = 1 := by
      have := congrArg Streamwalker.activefiles hcur
      rw [hc] at this
      simpa [cursor, hinitial, Streamwalker.initial] using this
    omega

theorem Settled.quiet {thresh : Thresholds} {rebuildloc : Option NeLocation}
    (hgc : thresh.gcthreshold ≠ 0) (hs : Settled refs thresh.gcthreshold) (n : Nat) :
    ∀ chain ∈ (walkStream objtarget refs thresh rebuildloc n).gcops, chain = [] := by
  refine walkStream_safe
    (fun walker => Quiet refs thresh.gcthreshold walker ∨ Finished refs walker) hgc
    (fun walker₀ hopen => ⟨.inl (.opened hgc hs hopen), fun _ _ h hstep => ?_,
      fun _ _ h hstep => ?_⟩) n
  · rcases h with h | h
    · obtain ⟨h', hnil⟩ := h.visit hgc hs hstep
      exact ⟨.inl h', hnil⟩
    · exact absurd hstep (not_visit_of_fileEos h.eos h.complete)
  · rcases h with h | h
    · have hprog := h.walk.complete hs.stream
      obtain ⟨rfl, heos⟩ := h.walk.located.leave hs.stream.toWalkable hprog hstep
      obtain ⟨file, hfile, -⟩ := h.walk.file
      exact ⟨.inr ⟨heos, hprog, rfl, ⟨file, hfile⟩⟩, h.nil⟩
    · obtain rfl := leave_of_fileEos h.eos h.complete hstep
      exact ⟨.inr h.cleared, h.nil⟩

end Quiet

/-! ## What a pass leaves at file zero -/

def FirstLive (refs : Refs) (gcthresh : Int) (fileno : Nat) : Prop :=
  0 < fileno ∧
    (∃ file, refs.file fileno = some file ∧ file.stat.eligible gcthresh = false) ∧
    ∀ j file, 0 < j → j < fileno → refs.file j = some file → file.stat.eligible gcthresh = true

/-- The objects of an eligible file zero are settled by one pass: a noted deletion of object zero is
not overwritten, since the first live file comes next, and the objects that file zero does not
finish alone are shared with the first live file. -/
structure ZeroSettles (refs : Refs) (gcthresh : Int) (file : RefFile) (ftag : Ftag) : Prop where
  file_eq : refs.file 0 = some file
  ftag_some : file.ftag = some ftag
  eligible : file.stat.eligible gcthresh = true
  live : ∃ first livefile livetag, FirstLive refs gcthresh first ∧
    refs.file first = some livefile ∧ livefile.ftag = some livetag ∧
    ((file.gctag.getD Gctag.none).delzero = false ∨ first = 1 + gapLength file) ∧
    (datastreamFilebounds ftag = 0 ∨ livetag.objno = datastreamFilebounds ftag)

/-- The walker of a pass before the first live file: nothing is executed yet, and the pending op
notes the deletion of object zero, unless that is still in use or noted already. -/
structure BeforeLive (refs : Refs) (gcthresh : Int) (file : RefFile) (ftag : Ftag)
    (walker : Streamwalker) : Prop where
  walk : WalkInv refs gcthresh walker
  activeindex_eq : walker.activeindex = 0
  activefiles_eq : walker.activefiles = 0
  noted : ((file.gctag.getD Gctag.none).delzero = false ∧
      ((∃ op, walker.pending = some op ∧ op.delrefinf.delzero = true) ∨
        (datastreamFilebounds ftag = 0 ∧ walker.objno = 0))) ∨
    ((file.gctag.getD Gctag.none).delzero = true ∧ walker.fileno = 0 ∧ walker.pending = none)

section ZeroPass

variable {file : RefFile} {ftag : Ftag} {walker walker' : Streamwalker} {done done' : Refs}

variable {op : Opinfo} {livetag : Ftag}

namespace BeforeLive

theorem gctag_delzero (hs : Stream refs) (hfile : refs.file 0 = some file)
    (h : BeforeLive refs gcthresh file ftag walker) :
    walker.gctag.delzero = true → (file.gctag.getD Gctag.none).delzero = true := by
  intro hdz
  obtain ⟨cur, hcur, -, hgct⟩ := h.walk.file
  rw [hgct] at hdz
  rw [hs.delzero hcur hdz] at hcur
  obtain rfl : file = cur := Option.some.inj (hfile.symm.trans hcur)
  exact hdz

theorem transition (hs : Stream refs) (hfile : refs.file 0 = some file)
    (h : BeforeLive refs gcthresh file ftag walker) {loaded : Streamwalker} {next : RefFile} {nexttag : Ftag}
    (hn : Next refs walker loaded next nexttag) (hdz : (file.gctag.getD Gctag.none).delzero = false) :
    (∃ op, loaded.transitionPending walker.gctag.delzero = some op ∧
        op.delrefinf.delzero = true) ∨
      (datastreamFilebounds ftag = 0 ∧ nexttag.objno = 0 ∧ walker.objno = 0) := by
  have hload := hn.loaded_eq
  have hpend : loaded.pending = walker.pending := by rw [hload]; rfl
  have hprev : walker.gctag.delzero = false := by
    by_contra hne
    have := h.gctag_delzero hs hfile (by simpa using hne)
    rw [hdz] at this
    cases this
  rcases h.noted with ⟨-, ⟨op, hop, hnote⟩ | ⟨hbnds, hobj⟩⟩ | ⟨hyes, -⟩
  · refine .inl ?_
    unfold transitionPending
    rw [hpend, hop]
    split
    · exact ⟨_, rfl, rfl⟩
    · exact ⟨op, rfl, hnote⟩
  · by_cases hzero : nexttag.objno = 0
    · exact .inr ⟨hbnds, hzero, hobj⟩
    · have hleav : loaded.LeavesDeadObj walker.gctag.delzero := by
        refine ⟨?_, ?_, .inr hprev⟩
        · rw [hn.ftag_eq, hload]
          exact fun heq => hzero (heq.trans hobj)
        · rw [hload]; exact h.activefiles_eq
      have hobj' : loaded.objno = 0 := by rw [hload]; exact hobj
      refine .inl
        ⟨noteDelzero (loaded.pending.getD (newOperation .deleteRef loaded.ftag)), ?_, rfl⟩
      rw [transitionPending, if_pos ⟨hleav, hobj'⟩]
  · rw [hdz] at hyes; cases hyes

variable {first : Nat} {gcops rbldops : List Opinfo}

end BeforeLive

end ZeroPass

variable {thresh : Thresholds} {rebuildloc : Option NeLocation} {walker : Streamwalker}

theorem BeforeLive.opened {file : RefFile} {ftag : Ftag} (hgc : thresh.gcthreshold ≠ 0) (hs : Stream refs)
    (hzero : ZeroSettles refs thresh.gcthreshold file ftag)
    (hopen : processOpenstreamwalker objtarget refs thresh rebuildloc = .opened walker) :
    BeforeLive refs thresh.gcthreshold file ftag walker := by
  obtain ⟨-, hno, hidx, hinv⟩ := WalkInv.opened hgc hs.toWalkable hopen
  obtain ⟨file', ftag', hfile, htag, hinit, -, -, hft, -⟩ := opened_some hgc hopen
  obtain rfl : file = file' := Option.some.inj (hzero.file_eq.symm.trans hfile)
  obtain rfl : ftag = ftag' := Option.some.inj (hzero.ftag_some.symm.trans htag)
  obtain ⟨first, livefile, -, ⟨hpos, -⟩, hlfile, -⟩ := hzero.live
  have hends : ¬ StreamEnds file ftag := fun hends => by
    rw [hs.last hfile htag hends hpos] at hlfile
    cases hlfile
  have hwalk : WalkInv refs thresh.gcthreshold walker := by
    rcases hinv with ⟨hwalk, -⟩ | hsole
    · exact hwalk
    · obtain ⟨file', ftag', hfile', htag', hends', -⟩ := hsole.soleEligible
      obtain rfl : file = file' := Option.some.inj (hfile.symm.trans hfile')
      obtain rfl : ftag = ftag' := Option.some.inj (htag.symm.trans htag')
      exact absurd hends' hends
  set initial := Streamwalker.initial thresh rebuildloc file ftag with hinitial
  have hcoll : initial.collects = true := hzero.eligible
  have heos : initial.openEos = false := by
    by_contra hne
    simp only [openEos, Bool.not_eq_false, Bool.or_eq_true, or_assoc] at hne
    exact hends hne
  obtain ⟨hcur, ⟨hf, -⟩ | ⟨-, heff⟩⟩ := openFile_some initial hgc hinit
  · rw [hcoll] at hf; cases hf
  have hpend : walker.pending = _ := heff.pending_eq
  rw [heos] at hpend
  refine ⟨hwalk, hidx, ?_, ?_⟩
  · have := congrArg Streamwalker.activefiles hcur
    rw [hcoll] at this
    simpa [cursor, hinitial, Streamwalker.initial] using this
  · have hobjs : initial.OpensObjs (datastreamFilebounds initial.ftag) false ↔
        datastreamFilebounds ftag ≠ 0 ∧ (file.gctag.getD Gctag.none).delzero = false := by
      simp [OpensObjs, hinitial, Streamwalker.initial]
    cases hdz : (file.gctag.getD Gctag.none).delzero with
    | true =>
      refine .inr ⟨rfl, hno, ?_⟩
      rw [hpend, openPending, if_neg (by rw [hobjs, hdz]; simp)]
      rfl
    | false =>
      refine .inl ⟨rfl, ?_⟩
      by_cases hbnds : datastreamFilebounds ftag = 0
      · exact .inr ⟨hbnds, by rw [hwalk.objno_eq, hft, hbnds]⟩
      · refine .inl ⟨initial.openDummy false (newOperation .deleteRef initial.ftag), ?_, rfl⟩
        rw [hpend, openPending, if_pos (hobjs.2 ⟨hbnds, hdz⟩)]
        rfl

variable {n : Nat} {done : Refs}

end Marfs.Gc
