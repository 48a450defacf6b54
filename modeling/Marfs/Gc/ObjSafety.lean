import Marfs.Gc.Layout
import Marfs.Gc.RefSafety

/-!
# Object deletions and live files

A GC walk must not delete an object that a live file still occupies, although files share objects
and span several of them.  The invariant that carries this (`ObjInv`) is about the walker's current
object: as long as `activefiles` is zero, no live file that was passed reaches it.  Objects are only
deleted when they are left behind (`FreeObj` of the walker's object), or when they lie strictly
inside an eligible file.
-/

namespace Marfs.Gc

open Rman Datastream Tagging Rman.Streamwalker

variable {objtarget : Ftag → Option NeLocation} {refs : Refs} {gcthresh : Int}

def LiveObj (refs : Refs) (gcthresh : Int) (objno : Nat) : Prop :=
  ∃ fileno file ftag, refs.file fileno = some file ∧ file.ftag = some ftag ∧
    (1 < file.stat.nlink ∨ gcthresh ≤ file.stat.ctime) ∧
    ftag.objno ≤ objno ∧ objno ≤ datastreamFilebounds ftag

def SparesObjs (refs : Refs) (gcthresh : Int) (chain : List Opinfo) : Prop :=
  ∀ objno, DeletesObj chain objno → ¬ LiveObj refs gcthresh objno

def EndBefore (refs : Refs) (gcthresh : Int) (position objno : Nat) : Prop :=
  ∀ fileno file ftag, refs.file fileno = some file → file.ftag = some ftag → fileno ≤ position →
    (1 < file.stat.nlink ∨ gcthresh ≤ file.stat.ctime) → datastreamFilebounds ftag < objno

/-- The invariant of a walk: the walker is in the last object of its file, and while no live file
is counted for that object, the live files passed so far end before it. -/
structure ObjInv (refs : Refs) (gcthresh : Int) (walker : Streamwalker) : Prop where
  current : ∃ file ftag, refs.file walker.fileno = some file ∧ file.ftag = some ftag ∧
    walker.objno = datastreamFilebounds ftag
  gap : ∀ j, walker.fileno < j → j ≤ walker.fileno + walker.gctag.refcnt → refs.file j = none
  inactive : walker.activefiles = 0 → EndBefore refs gcthresh walker.fileno walker.objno
  spares : SparesObjs refs gcthresh walker.gcops

/-! ## Objects that no live file occupies -/

/-- An object between the files passed so far and the files to come is free. -/
theorem not_liveObj_of_between {position objno : Nat} (hpast : EndBefore refs gcthresh position objno)
    (hfuture : ∀ fileno file ftag, refs.file fileno = some file → file.ftag = some ftag →
      position < fileno → objno < ftag.objno) : ¬ LiveObj refs gcthresh objno := by
  rintro ⟨fileno, file, ftag, hfile, htag, hlive, hlo, hhi⟩
  rcases Nat.lt_or_ge position fileno with hlt | hge
  · have := hfuture fileno file ftag hfile htag hlt
    omega
  · have := hpast fileno file ftag hfile htag hge hlive
    omega

section Layout

variable {position fileno : Nat} {file : RefFile} {ftag : Ftag}

variable {objno : Nat}

theorem endBefore_later (hlay : LayoutConsistent refs) (hfile : refs.file fileno = some file)
    (htag : file.ftag = some ftag) (hlt : position < fileno) (hobj : ftag.objno < objno) :
    EndBefore refs gcthresh position objno := by
  intro i file' ftag' hi htag' hpos _
  have := hlay.order hi htag' hfile htag (by omega)
  omega

theorem EndBefore.skip (hgc : gcthresh ≠ 0) (hfile : refs.file fileno = some file)
    (helig : file.stat.eligible gcthresh = true) (hgap : ∀ j, position < j → j < fileno → refs.file j = none)
    (h : EndBefore refs gcthresh position objno) : EndBefore refs gcthresh fileno objno := by
  intro i file' ftag' hi htag' hpos hlive
  rcases Nat.lt_or_ge position i with hlt | hge
  · rcases Nat.eq_or_lt_of_le hpos with rfl | hin
    · have hl : refs.Live gcthresh i := ⟨file', hi, hlive⟩
      rw [Refs.live_iff hgc hfile, helig] at hl
      cases hl
    · rw [hgap i hlt hin] at hi
      cases hi
  · exact h i file' ftag' hi htag' hge hlive

/-- The files after an object's last file start behind it. -/
theorem later_objno (hlay : LayoutConsistent refs) (hfile : refs.file fileno = some file)
    (htag : file.ftag = some ftag) (hobj : objno < datastreamFilebounds ftag) :
    ∀ i file' ftag', refs.file i = some file' → file'.ftag = some ftag' → fileno < i →
      objno < ftag'.objno := by
  intro i file' ftag' hi htag' hlt
  have := hlay.order hfile htag hi htag' hlt
  omega

end Layout

/-! ## One turn -/

section Turn

variable {walker walker' : Streamwalker}

theorem ObjInv.recover (h : ObjInv refs gcthresh walker)
    (hrec : walker.recoverInprog = some walker') : ObjInv refs gcthresh walker' := by
  rcases recoverInprog_some hrec with ⟨-, rfl⟩ | ⟨-, op, -, hcur, heff⟩
  · exact h
  obtain ⟨-, hno, -, hcnt⟩ := recoverInprog_gctag hrec
  have hobj : walker'.objno = walker.objno := by
    simpa [cursor] using congrArg Streamwalker.objno hcur
  have hact : walker'.activefiles = walker.activefiles := by
    simpa [cursor] using congrArg Streamwalker.activefiles hcur
  refine ⟨by rw [hno, hobj]; exact h.current, by rw [hno, hcnt]; exact h.gap,
    by rw [hno, hobj, hact]; exact h.inactive, fun objno hdel => ?_⟩
  rw [heff.deletes, or_false] at hdel
  exact h.spares objno hdel

/-- What a visit reaches: the next file, in an object of its own or in the walker's. -/
structure NextFile (refs : Refs) (walker : Streamwalker) (file : RefFile) (ftag : Ftag) : Prop where
  later : walker.fileno < ftag.fileno
  file_eq : refs.file ftag.fileno = some file
  tag_eq : file.ftag = some ftag
  between : ∀ j, walker.fileno < j → j < ftag.fileno → refs.file j = none

variable {file : RefFile} {ftag : Ftag}

theorem ObjInv.objno_le (hlay : LayoutConsistent refs) (h : ObjInv refs gcthresh walker)
    (hnext : NextFile refs walker file ftag) : walker.objno ≤ ftag.objno := by
  obtain ⟨file', ftag', hfile', htag', hobj⟩ := h.current
  rw [hobj]
  exact hlay.order hfile' htag' hnext.file_eq hnext.tag_eq hnext.later

/-- The object left behind at a transition is free. -/
theorem ObjInv.leaves (hlay : LayoutConsistent refs) (h : ObjInv refs gcthresh walker)
    (hnext : NextFile refs walker file ftag) (hne : ftag.objno ≠ walker.objno)
    (hact : walker.activefiles = 0) : ¬ LiveObj refs gcthresh walker.objno := by
  have hle := h.objno_le hlay hnext
  refine not_liveObj_of_between (h.inactive hact) fun i file' ftag' hi htag' hlt => ?_
  rcases Nat.lt_trichotomy i ftag.fileno with hin | rfl | hout
  · rw [hnext.between i hlt hin] at hi
    cases hi
  · obtain rfl : file = file' := Option.some.inj (hnext.file_eq.symm.trans hi)
    obtain rfl : ftag = ftag' := Option.some.inj (hnext.tag_eq.symm.trans htag')
    omega
  · have := hlay.order hnext.file_eq hnext.tag_eq hi htag' hout
    have := objno_le_filebounds ftag
    omega

theorem ObjInv.endBefore_next (hlay : LayoutConsistent refs) (h : ObjInv refs gcthresh walker)
    (hnext : NextFile refs walker file ftag)
    (hact : (if ftag.objno ≠ walker.objno then 0 else walker.activefiles) = 0) :
    EndBefore refs gcthresh walker.fileno ftag.objno := by
  by_cases hne : ftag.objno = walker.objno
  · rw [if_neg (by simpa using hne)] at hact
    rw [hne]
    exact h.inactive hact
  · have hle := h.objno_le hlay hnext
    obtain ⟨file', ftag', hfile', htag', hobj⟩ := h.current
    intro i file'' ftag'' hi htag'' hpos _
    rcases Nat.eq_or_lt_of_le hpos with rfl | hlt
    · obtain rfl : file' = file'' := Option.some.inj (hfile'.symm.trans hi)
      obtain rfl : ftag' = ftag'' := Option.some.inj (htag'.symm.trans htag'')
      omega
    · have := hlay.order hi htag'' hfile' htag' hlt
      have := objno_le_filebounds ftag'
      omega

theorem ObjInv.eligibleDeletes (hgc : gcthresh ≠ 0) (hlay : LayoutConsistent refs)
    (h : ObjInv refs gcthresh walker) (hnext : NextFile refs walker file ftag)
    (helig : file.stat.eligible gcthresh = true) (hobj : walker'.objno = ftag.objno)
    (hftag : walker'.ftag = ftag)
    (hact : walker'.activefiles = if ftag.objno ≠ walker.objno then 0 else walker.activefiles) {eos : Bool}
    (heos : eos = true → StreamEnds file ftag) {objno : Nat}
    (hdel : walker'.EligibleDeletes (datastreamFilebounds ftag) eos objno) :
    ¬ LiveObj refs gcthresh objno := by
  have hge := objno_le_filebounds ftag
  have hskip : ∀ {objno}, EndBefore refs gcthresh walker.fileno objno →
      EndBefore refs gcthresh ftag.fileno objno := fun hb =>
    hb.skip hgc hnext.file_eq helig hnext.between
  rcases hdel with ⟨⟨hend, hnone, -⟩, rfl⟩ | ⟨hend, hlo, hhi⟩ | ⟨hyes, hor, rfl⟩
  · rw [hftag]
    rw [hobj] at hend
    have hbef := h.endBefore_next hlay hnext (hact ▸ hnone)
    exact not_liveObj_of_between (hskip hbef)
      (later_objno hlay hnext.file_eq hnext.tag_eq (by omega))
  · rw [hftag] at hlo
    exact not_liveObj_of_between
      (hskip (endBefore_later hlay hnext.file_eq hnext.tag_eq hnext.later hlo))
      (later_objno hlay hnext.file_eq hnext.tag_eq hhi)
  · have hbef : EndBefore refs gcthresh walker.fileno (datastreamFilebounds ftag) := by
      by_cases hend : datastreamFilebounds ftag = ftag.objno
      · have hnone : walker'.activefiles = 0 := hor.resolve_left (by rw [hobj]; simpa using hend)
        rw [hend]
        exact h.endBefore_next hlay hnext (hact ▸ hnone)
      · exact endBefore_later hlay hnext.file_eq hnext.tag_eq hnext.later (by omega)
    refine not_liveObj_of_between (hskip hbef) fun i file' ftag' hi _ hlt => ?_
    rw [hlay.last hnext.file_eq hnext.tag_eq (heos hyes) hlt] at hi
    cases hi

theorem ObjInv.visit {gcops rbldops : List Opinfo} (hgc : gcthresh ≠ 0) (hlay : LayoutConsistent refs)
    (hat : walker.AtFile gcthresh) (h : ObjInv refs gcthresh walker)
    (hstep : VisitStep objtarget refs walker walker' gcops rbldops) :
    ObjInv refs gcthresh walker' ∧ SparesObjs refs gcthresh gcops := by
  obtain ⟨-, walker₁, file, ftag, hrec, -, hfile, htag, hvisit⟩ := hstep
  have h₁ := h.recover hrec
  have hth₁ : walker₁.gcthresh = gcthresh := (recoverInprog_gctag hrec).1.trans hat.gcthresh_eq
  have hno : ftag.fileno = walker₁.fileno + (1 + walker₁.gctag.refcnt) :=
    hlay.fileno_eq hfile htag
  have hnext : NextFile refs walker₁ file ftag :=
    ⟨by omega, hno ▸ hfile, htag, fun j hlo hhi => h₁.gap j hlo (by omega)⟩
  -- the walker at the next file, before the visit
  have hload : (walker₁.loadFile file true).ftag = ftag := by simp [loadFile, htag]
  have hobj : (walker₁.loadFile file true).objno = walker₁.objno := rfl
  have hops : (walker₁.loadFile file true).gcops = walker₁.gcops := rfl
  have hact : (walker₁.loadFile file true).transitionActive =
      if ftag.objno ≠ walker₁.objno then 0 else walker₁.activefiles := by
    rw [transitionActive, hload, hobj]; rfl
  have hleav : ∀ objno, ((walker₁.loadFile file true).LeavesDeadObj walker₁.gctag.delzero ∧
      objno = (walker₁.loadFile file true).objno) → ¬ LiveObj refs gcthresh objno := by
    rintro objno ⟨⟨hne, hnone, -⟩, hobjno⟩
    rw [hload, hobj] at hne
    rw [hobjno, hobj]
    exact h₁.leaves hlay hnext hne hnone
  cases helig : file.stat.eligible gcthresh with
  | false =>
    obtain ⟨-, hv, hnil, -, hcnt, heff⟩ :=
      visitFile_live (hth₁.symm ▸ hgc) (hth₁.symm ▸ helig) hvisit
    refine ⟨⟨⟨file, ftag, ?_, htag, ?_⟩, ?_, ?_, ?_⟩, fun objno hdel => ?_⟩
    · rw [hv.fileno_eq, hload]; exact hnext.file_eq
    · rw [hv.objno_eq, hload]
    · rw [hv.fileno_eq, hload, hv.gctag_eq]; exact hlay.gap hnext.file_eq
    · rw [hcnt]; exact fun h0 => absurd h0 (Nat.succ_ne_zero _)
    · rw [hnil]; simp [SparesObjs]
    · rcases (heff.deletes objno).1 hdel with hold | hnew
      · exact h₁.spares objno (hops ▸ hold)
      · exact hleav objno hnew
  | true =>
    obtain ⟨-, hv, hnone, -, hcnt, walker₂, op, hcur₂, -, heff⟩ :=
      visitFile_eligible (hth₁.symm ▸ hgc) (hth₁.symm ▸ helig) hvisit
    have hobj₂ : walker₂.objno = ftag.objno := by
      rw [← hload]; simpa [cursor] using congrArg Streamwalker.objno hcur₂
    have hft₂ : walker₂.ftag = ftag := by
      rw [← hload]; simpa [cursor] using congrArg Streamwalker.ftag hcur₂
    have hact₂ : walker₂.activefiles =
        if ftag.objno ≠ walker₁.objno then 0 else walker₁.activefiles := by
      rw [← hact]; simpa [cursor] using congrArg Streamwalker.activefiles hcur₂
    have heos : (walker₁.loadFile file true).fileEos = true → StreamEnds file ftag := by
      intro he
      simp only [fileEos, hload, Bool.or_eq_true, Bool.and_eq_true] at he
      rcases he with (he | he) | ⟨-, he⟩
      · exact .inl he
      · exact .inr (.inl he)
      · exact .inr (.inr he)
    refine ⟨⟨⟨file, ftag, ?_, htag, ?_⟩, ?_, ?_, fun objno hdel => ?_⟩, ?_⟩
    · rw [hv.fileno_eq, hload]; exact hnext.file_eq
    · rw [hv.objno_eq, hload]
    · rw [hv.fileno_eq, hload, hv.gctag_eq]; exact hlay.gap hnext.file_eq
    · rw [hcnt, hv.fileno_eq, hv.objno_eq, passedActive, hact, hload]
      intro h0
      refine EndBefore.skip hgc hnext.file_eq helig hnext.between ?_
      by_cases hend : datastreamFilebounds ftag = ftag.objno
      · rw [if_neg (by simpa using hend)] at h0
        rw [hend]
        exact h₁.endBefore_next hlay hnext h0
      · have hge := objno_le_filebounds ftag
        exact endBefore_later hlay hnext.file_eq hnext.tag_eq hnext.later (by omega)
    · rcases (heff.deletes objno).1 hdel with hold | hnew | hnew
      · exact h₁.spares objno (hops ▸ hold)
      · exact hleav objno hnew
      · rw [hload] at hnew
        exact h₁.eligibleDeletes hgc hlay hnext helig hobj₂ hft₂ hact₂ heos hnew
    · rw [hnone]; simp [SparesObjs]

theorem ObjInv.leave (hlay : LayoutConsistent refs) (hat : walker.AtFile gcthresh)
    (h : ObjInv refs gcthresh walker) (hstep : LeaveStep refs walker walker') :
    ObjInv refs gcthresh { walker' with gcops := [], rbldops := [] } ∧
      SparesObjs refs gcthresh walker'.gcops := by
  have hdispatch : ∀ {walker}, ObjInv refs gcthresh walker →
      ObjInv refs gcthresh { walker with gcops := [], rbldops := [] } := fun h =>
    ⟨h.current, h.gap, h.inactive, by simp [SparesObjs]⟩
  cases hstep with
  | ended _ heq =>
    subst heq
    exact ⟨hdispatch h, h.spares⟩
  | gctagEos _ hrec _ => exact ⟨hdispatch (h.recover hrec), (h.recover hrec).spares⟩
  | missing _ walker₁ hrec _ hcur heff =>
    have h₁ := h.recover hrec
    have hno : walker'.fileno = walker₁.fileno := by
      simpa [cursor] using congrArg Streamwalker.fileno hcur
    have hobj : walker'.objno = walker₁.objno := by
      simpa [cursor] using congrArg Streamwalker.objno hcur
    have hgct : walker'.gctag = walker₁.gctag := by
      simpa [cursor] using congrArg Streamwalker.gctag hcur
    have hact : walker'.activefiles = walker₁.activefiles := by
      simpa [cursor] using congrArg Streamwalker.activefiles hcur
    have h' : ObjInv refs gcthresh walker' := by
      refine ⟨by rw [hno, hobj]; exact h₁.current, by rw [hno, hgct]; exact h₁.gap,
        by rw [hno, hobj, hact]; exact h₁.inactive, fun objno hdel => ?_⟩
      rw [heff.deletes, or_false] at hdel
      exact h₁.spares objno hdel
    exact ⟨hdispatch h', h'.spares⟩
  | untagged _ walker₁ walker₂ file hrec hfile huntag hcur hops htrl =>
    have h₁ := h.recover hrec
    obtain ⟨hcur', hcase⟩ := trailingFile_some htrl
    have hcur₂ := hcur'.trans hcur
    have hno : walker'.fileno = (walker₁.loadFile file true).fileno := cursor_fileno hcur₂
    have hobj : walker'.objno = (walker₁.loadFile file true).objno := cursor_objno hcur₂
    have hact : walker'.activefiles = (walker₁.loadFile file true).activefiles :=
      cursor_activefiles hcur₂
    have hcnt : walker'.gctag.refcnt = 0 := by
      rw [cursor_gctag hcur₂]
      exact hlay.untagged hfile huntag
    have hspares : SparesObjs refs gcthresh walker'.gcops := by
      intro objno hdel
      rcases hcase with ⟨-, hsame⟩ | ⟨-, op, -, heff⟩
      · rw [hsame, hops] at hdel
        exact h₁.spares objno hdel
      · rw [heff.deletes, or_false, hops] at hdel
        exact h₁.spares objno hdel
    have h' : ObjInv refs gcthresh walker' :=
      ⟨by rw [hno, hobj]; exact h₁.current, by rw [hcnt]; intro j hlo hhi; omega,
        by rw [hno, hobj, hact]; exact h₁.inactive, hspares⟩
    exact ⟨hdispatch h', hspares⟩

end Turn

/-! ## Whole walks -/

variable {thresh : Thresholds} {rebuildloc : Option NeLocation}

/-- A walker opens with the invariant: an eligible file zero only gives up objects that no later
file starts in. -/
theorem ObjInv.opened {walker : Streamwalker} (hgc : thresh.gcthreshold ≠ 0) (hlay : LayoutConsistent refs)
    (h : processOpenstreamwalker objtarget refs thresh rebuildloc = .opened walker) :
    ObjInv refs thresh.gcthreshold walker := by
  obtain ⟨file, ftag, hfile, htag, hopen, hat, hno, hft, hgct, hst, hobj, -⟩ := opened_some hgc h
  set initial := Streamwalker.initial thresh rebuildloc file ftag with hinit
  obtain ⟨hcur, hops⟩ := openFile_some initial hgc hopen
  have hact : walker.activefiles =
      if initial.collects then initial.activefiles else initial.activefiles + 1 := by
    simpa [cursor] using congrArg Streamwalker.activefiles hcur
  have helig : initial.collects = file.stat.eligible thresh.gcthreshold := rfl
  have hpast : file.stat.eligible thresh.gcthreshold = true →
      ∀ objno, EndBefore refs thresh.gcthreshold 0 objno := by
    intro he objno i file' ftag' hi htag' hpos hlive
    obtain rfl : i = 0 := by omega
    have hl : refs.Live thresh.gcthreshold 0 := ⟨file', hi, hlive⟩
    rw [Refs.live_iff hgc hfile, he] at hl
    cases hl
  refine ⟨⟨file, ftag, by rw [hno]; exact hfile, htag, hobj⟩, ?_, ?_, ?_⟩
  · rw [hno, hgct]
    exact hlay.gap hfile
  · intro h0
    rw [hact, helig] at h0
    rw [hno]
    cases he : file.stat.eligible thresh.gcthreshold with
    | false => rw [he] at h0; simp at h0
    | true => exact hpast he _
  · intro objno hdel
    rcases hops with ⟨-, hops⟩ | ⟨hcoll, heff⟩
    · rw [hops] at hdel
      exact absurd hdel (deletesObj_nil objno)
    · rcases (heff.deletes objno).1 hdel with hold | ⟨-, -, hhi⟩
      · exact absurd hold (deletesObj_nil objno)
      · refine not_liveObj_of_between (hpast (helig ▸ hcoll) objno)
          fun i file' ftag' hi htag' hlt => ?_
        change objno < (if initial.openEos then datastreamFilebounds ftag + 1
          else datastreamFilebounds ftag) at hhi
        cases heos : initial.openEos with
        | false =>
          rw [heos] at hhi
          exact later_objno hlay hfile htag (by simpa using hhi) i file' ftag' hi htag' hlt
        | true =>
          have hends : StreamEnds file ftag := by
            simp only [openEos, Bool.or_eq_true] at heos
            rcases heos with (he | he) | he
            · exact .inl he
            · exact .inr (.inl he)
            · exact .inr (.inr he)
          rw [hlay.last hfile htag hends hlt] at hi
          cases hi

/-- GC never deletes a live object: on every layout-consistent stream, no object deletion that the
opened walker and any number of its calls dispatch names an object of a file that is linked or was
deactivated too recently. -/
theorem walkStream_sparesObjs (hgc : thresh.gcthreshold ≠ 0) (hlayout : LayoutConsistent refs) (n : Nat) :
    ∀ chain ∈ (walkStream objtarget refs thresh rebuildloc n).gcops,
      SparesObjs refs thresh.gcthreshold chain :=
  walkStream_safe (ObjInv refs thresh.gcthreshold) hgc
    (fun _ hopen =>
      { start := ObjInv.opened hgc hlayout hopen
        visit := fun _ hat h => h.visit hgc hlayout hat
        leave := fun _ hat h => h.leave hlayout hat }) n

/-- Three files, each in an object of its own; the one in the middle is eligible. -/
def spacedStream : Refs :=
  [some (sampleFile 0 0 true false none), some (sampleFile 1 1 false false none),
   some (sampleFile 2 2 true true none)]

theorem spacedStream_layout : LayoutConsistent spacedStream := by
  refine ⟨fun {fileno file ftag} hfile htag => ?_, fun {fileno file} hfile j hlo hhi => ?_,
    fun {fileno file} hfile huntag => ?_,
    fun {fileno file ftag file' ftag'} hfile htag hfile' htag' => ?_,
    fun {fileno file'} hfile hne => ?_⟩
  all_goals
    have hlt : fileno < 3 := Refs.file_lt hfile
    interval_cases fileno <;> obtain rfl := Option.some.inj hfile
  all_goals try cases htag
  all_goals try rfl
  all_goals try (simp [sampleFile, gapLength, Gctag.none] at hhi; omega)
  · obtain rfl := Option.some.inj hfile'
    cases htag'
    decide
  · obtain rfl := Option.some.inj hfile'
    cases htag'
    decide
  · cases hfile'
  · exact absurd rfl hne
  · exact ⟨0, _, _, rfl, rfl, by simp [StreamEnds, sampleFile]; decide, rfl⟩
  · exact ⟨1, _, _, rfl, rfl, by simp [StreamEnds, sampleFile]; decide, rfl⟩

/-- On it the walk deletes object 1, and spares the objects of the live files. -/
theorem spacedStream_sparesObjs :
    DeletesObj ((walkStream (fun _ => none) spacedStream sampleThresh none 3).gcops.flatten) 1 ∧
      ∀ chain ∈ (walkStream (fun _ => none) spacedStream sampleThresh none 3).gcops,
        SparesObjs spacedStream sampleThresh.gcthreshold chain :=
  ⟨by unfold DeletesObj; decide,
    walkStream_sparesObjs (by decide) spacedStream_layout 3⟩

end Marfs.Gc
