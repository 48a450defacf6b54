import Marfs.Datastream.SeekExact

/-!
# Reusing a stream

`datastream_open` and `datastream_scan` go on with the stream they are passed, if it is one of the same
namespace.  They part where the new file is in the object of the stream and that object is not open:
`datastream_scan` moves its data handle all the same, and a stream without one does not survive that.
-/

namespace Marfs.Datastream

open Machine Recovery Tagging Sys
open Machine.Op

namespace Sys

variable {s : Sys}

/-! ## Paths -/

def Reads (s : Sys) : Prop := s.stream.type = .read

theorem reads_modifyFile (i : Nat) (f : Streamfile → Streamfile) : Keeps Reads (modifyFile i f) :=
  Keeps.modify fun _ h => h

theorem genrecoveryinfo_same (path path' : List Char) (stat : FileStat) :
    Same Reads (genrecoveryinfo path stat) (genrecoveryinfo path' stat) := by
  refine ⟨Keeps.bind Keeps.get fun _ => ?_, fun s hs => ?_⟩
  · refine Keeps.ite (Keeps.modify fun _ h => h) ?_
    exact Keeps.bind (Keeps.modify fun _ h => h) fun _ => reads_modifyFile _ _
  · have htype : s.stream.type = .read := hs
    change (if s.stream.type = .read then _ else _ : Op Sys Unit) s =
      (if s.stream.type = .read then _ else _ : Op Sys Unit) s
    rw [if_pos htype, if_pos htype]

theorem enterExisting_same (path path' : List Char) (stat : Option FileStat) (ftag : Ftag) :
    Same Reads (enterExisting path stat ftag) (enterExisting path' stat ftag) := by
  refine (Same.of_keeps Keeps.get).bind fun s => ?_
  refine (Same.of_keeps (reads_modifyFile _ _)).bind fun _ => ?_
  refine (Same.of_keeps (Keeps.check _)).bind fun _ => ?_
  refine (Same.of_keeps (Keeps.ofOption _)).bind fun stat => ?_
  refine (genrecoveryinfo_same path path' stat).bind fun _ => ?_
  refine (Same.of_keeps (Keeps.check _)).bind fun _ => ?_
  exact Same.of_keeps (Keeps.modify fun _ h => h)

theorem openExistingFile_same (path path' : List Char) (target : Target) :
    Same Reads (openExistingFile path target) (openExistingFile path' target) := by
  have hclose : ∀ i, Keeps Reads (closeMeta i) := fun i => reads_modifyFile i _
  refine (Same.of_keeps Keeps.get).bind fun s => ?_
  refine (Same.of_keeps (reads_modifyFile _ _)).bind fun _ => ?_
  refine (Same.of_keeps (Keeps.check _)).bind fun _ => ?_
  refine (Same.of_keeps ((Keeps.ofOption _).onFail (hclose _))).bind fun ftag => ?_
  cases ftag with
  | none =>
    exact Same.of_keeps (((Keeps.check _).onFail (hclose _)).bind fun _ => Keeps.pure _)
  | some ftag =>
    refine ((enterExisting_same path path' target.stat ftag).onFail (hclose _)).bind fun _ => ?_
    exact Same.of_keeps (Keeps.pure _)

theorem genExisting_path (path path' : List Char) (pos : MarfsPosition) (target : Target) :
    genExisting .read pos path target = genExisting .read pos path' target := by
  let blank := fresh .read pos.scheme [] [] []
  have hsame := (openExistingFile_same path path' target).eq
    { blank with stream := { blank.stream with recoveryheaderlen := 0, offset := 0 } }
    (rfl : blank.stream.type = .read)
  unfold genExisting
  dsimp only
  rw [hsame]

theorem keeps_openExistingFile {P : Sys → Prop} (hP : ∀ s stream, P s → P { s with stream := stream })
    (path : List Char) (target : Target) : Keeps P (openExistingFile path target) := by
  have hstr : ∀ f : Stream → Stream, Keeps P (modifyStream f) := fun f =>
    Keeps.modify fun s h => hP s _ h
  have hfile : ∀ i f, Keeps P (modifyFile i f) := fun i f => hstr _
  have hclose : ∀ i, Keeps P (closeMeta i) := fun i => hfile i _
  have hinfo : ∀ stat, Keeps P (genrecoveryinfo path stat) := fun stat => by
    refine Keeps.get.bind fun s => Keeps.ite (hstr _) ?_
    exact (hstr _).bind fun _ => hfile _ _
  have hent : ∀ ftag, Keeps P (enterExisting path target.stat ftag) := fun ftag => by
    refine Keeps.get.bind fun s => ?_
    refine Keeps.bind (hfile _ _) fun _ => ?_
    refine (Keeps.check _).bind fun _ => (Keeps.ofOption _).bind fun stat => ?_
    exact (hinfo stat).bind fun _ => (Keeps.check _).bind fun _ => hstr _
  refine Keeps.get.bind fun s => ?_
  refine (hfile _ _).bind fun _ => (Keeps.check _).bind fun _ => ?_
  refine ((Keeps.ofOption _).onFail (hclose _)).bind fun ftag => ?_
  cases ftag with
  | none => exact ((Keeps.check _).onFail (hclose _)).bind fun _ => Keeps.pure _
  | some ftag => exact ((hent ftag).onFail (hclose _)).bind fun _ => Keeps.pure _

/-! ## The place behind the current file -/

def nextPlace (s : Sys) : Sys :=
  { s with stream := { s.stream with curfile := s.stream.curfile + 1 } }

variable {target : Target}

theorem progressFile_found (preserve : Bool) {path : List Char} {s' : Sys}
    (h : openExistingFile path target (nextPlace s) = (some true, s')) :
    progressFile preserve path target s = (some (), s') := by
  have hrun : wp (progressFile preserve path target) (fun _ s'' => s'' = s') (fun _ => False) s := by
    refine wp_bind.2 (wp_modifyStream.2 (wp_onFail.2 (wp_bind.2 (wp_of_some h ?_))))
    refine wp_bind.2 (wp_get.2 (wp_ite.2 ⟨fun hmissed => ?_, fun _ => ?_⟩))
    · simp at hmissed
    · exact wp_check.2 ⟨fun _ => rfl, fun hfalse => absurd hfalse (by decide)⟩
  obtain ⟨_, _, hend, rfl⟩ := wp_returns hrun fun _ h => h
  exact hend

theorem progressFile_missed (preserve : Bool) (path : List Char)
    (h : ¬ ∃ ftag, target.Leads s.stream.type ftag) :
    ∃ s', progressFile preserve path target s = (none, s') ∧ s'.live = s.live := by
  have hlive := keeps_openExistingFile (P := fun s' => s'.live = s.live) (fun _ _ h => h) path target
    (nextPlace s) rfl
  have hopen := wp_and (openExistingFile_spec path target (s := nextPlace s)) hlive
  have hrun : wp (progressFile preserve path target) (fun _ _ => False)
      (fun s' => s'.live = s.live) s := by
    refine wp_bind.2 (wp_modifyStream.2 (wp_onFail.2 (wp_bind.2 (wp_mono hopen ?_ fun _ h => h.2))))
    rintro found s' ⟨⟨hfound, -⟩, hs'⟩
    cases found with
    | true =>
      obtain ⟨ftag, hleads, -⟩ := hfound rfl
      exact absurd ⟨ftag, hleads⟩ h
    | false =>
      refine wp_bind.2 (wp_get.2 (wp_ite.2 ⟨fun _ => wp_bind.2 (wp_closeMeta.2 ?_), fun _ => ?_⟩))
      · exact wp_check.2 ⟨fun hfalse => absurd hfalse (by decide), fun _ => hs'⟩
      · exact wp_check.2 ⟨fun hfalse => absurd hfalse (by decide), fun _ => hs'⟩
  exact wp_fails hrun fun _ _ h => h

theorem openExistingFile_found (path : List Char) (h : ∃ ftag, target.Leads s.stream.type ftag) :
    ∃ ftag s', target.Leads s.stream.type ftag ∧ Entered ftag s.stream s'.stream ∧
      s' = { s with stream := s'.stream } ∧ openExistingFile path target s = (some true, s') := by
  have hspec := openExistingFile_spec path target (s := s)
  rcases hrun : openExistingFile path target s with ⟨_ | _ | _, s'⟩
  · have hnot := wp_none hspec hrun
    exact absurd h hnot
  · exact absurd h ((wp_some hspec hrun).2 rfl)
  · obtain ⟨ftag, hleads, hent, hs'⟩ := (wp_some hspec hrun).1 rfl
    exact ⟨ftag, s', hleads, hent, hs', rfl⟩

end Sys

namespace Reader

variable {r : Reader} {pos : MarfsPosition} {target : Target}

/-- Opening and scanning a target have the same outcome, leave the stream there or destroy it alike, and
where they succeed, they leave the same stream behind, for all calls to come. -/
structure Agrees (preserve : Bool) (pos : MarfsPosition) (path refpath : List Char) (target : Target)
    (r : Reader) : Prop where
  outcome : (datastreamOpen preserve .read pos path target r).1 =
    (datastreamScan pos refpath target r).1
  live : (datastreamOpen preserve .read pos path target r).2.sys.live =
    (datastreamScan pos refpath target r).2.sys.live
  stream : (datastreamOpen preserve .read pos path target r).1.isSome →
    (datastreamOpen preserve .read pos path target r).2 = (datastreamScan pos refpath target r).2

/-- The target is a file of the object that the stream is at, and that object is not open. -/
structure Unopened (pos : MarfsPosition) (target : Target) (r : Reader) : Prop where
  namespaces : r.idstr = pos.idstr
  leads : ∃ ftag, target.Leads .read ftag ∧ ftag.ctag = r.sys.stream.cur.ftag.ctag ∧
    ftag.streamid = r.sys.stream.cur.ftag.streamid ∧ ftag.objno = r.sys.stream.objno
  closed : r.sys.stream.datahandle = none

variable {preserve : Bool} {path : List Char} {s' : Sys} {old : Reader}

theorem reuseStream_found (h : progressFile preserve path target r.sys = (some (), s'))
    (reposition : Nat → Op Reader Unit) :
    reuseStream preserve path target reposition r =
      (do enterObject r reposition; onSys replaceFile : Op Reader Unit) { r with sys := s' } := by
  have hrun : onSys (progressFile preserve path target) r = (some (), { r with sys := s' }) := by
    unfold onSys zoom
    rw [h]
  unfold reuseStream
  simp only [bind, Op.get, hrun]

theorem reuseStream_missed (h : progressFile preserve path target r.sys = (none, s'))
    (reposition : Nat → Op Reader Unit) :
    reuseStream preserve path target reposition r = (none, { r with sys := s' }) := by
  have hrun : onSys (progressFile preserve path target) r = (none, { r with sys := s' }) := by
    unfold onSys zoom
    rw [h]
  unfold reuseStream
  simp only [bind, Op.get, hrun]

theorem enterObject_opened (h : r.sys.stream.datahandle.isSome) :
    enterObject old seekOpened r = enterObject old seekTo r := by
  have hseek : ∀ offset, seekOpened offset r = seekTo offset r := by
    intro offset
    unfold seekOpened
    simp only [bind, Op.get, h, if_true]
  unfold enterObject
  simp only [bind, Op.get]
  split
  · rfl
  · simp only [onFail, hseek]

/-- The new file starts in the object that the stream was at. -/
def Shares (old r : Reader) : Prop :=
  old.sys.stream.cur.ftag.streamid = r.sys.stream.cur.ftag.streamid ∧
    old.sys.stream.cur.ftag.ctag = r.sys.stream.cur.ftag.ctag ∧
    old.sys.stream.objno = r.sys.stream.cur.ftag.objno

theorem enterObject_apart (h : ¬ Shares old r) (reposition reposition' : Nat → Op Reader Unit) :
    enterObject old reposition r = enterObject old reposition' r := by
  unfold Shares at h
  unfold enterObject
  simp only [bind, Op.get]
  split
  · rfl
  · next hsame =>
    simp only [ne_eq, Bool.or_eq_true, decide_eq_true_eq, not_or, not_not] at hsame
    exact absurd ⟨hsame.1.1, hsame.1.2, hsame.2⟩ h

theorem enterObject_open (h : Shares old r) (hnone : r.sys.stream.datahandle = none) :
    wp (enterObject old seekOpened) (fun _ r' => r' = r) (fun _ => False) r := by
  refine wp_bind.2 (wp_get.2 (wp_ite.2 ⟨fun happart => ?_, fun _ => ?_⟩))
  · simp [h.1, h.2.1, h.2.2] at happart
  · refine wp_onFail.2 (wp_bind.2 (wp_get.2 (wp_ite.2 ⟨fun hsome => ?_, fun _ => wp_pure.2 rfl⟩)))
    rw [hnone] at hsome
    cases hsome

theorem enterObject_scan (h : Shares old r) (hnone : r.sys.stream.datahandle = none) :
    wp (enterObject old seekTo) (fun _ _ => False) (fun r' => r'.sys.live = false) r := by
  refine wp_bind.2 (wp_get.2 (wp_ite.2 ⟨fun happart => ?_, fun _ => ?_⟩))
  · simp [h.1, h.2.1, h.2.2] at happart
  · refine wp_onFail.2 (wp_bind.2 (wp_bind.2 (wp_get.2 ?_)))
    rw [hnone]
    exact wp_fail.2 rfl

/-! ## Where the two agree -/

theorem datastreamOpen_eq (htype : r.sys.stream.type = .read) (preserve : Bool) (pos : MarfsPosition)
    (path : List Char) (target : Target) :
    datastreamOpen preserve .read pos path target r =
      if r.idstr = pos.idstr then reuseStream preserve path target seekOpened r
      else replaceStream pos path target r := by
  change (Op.check (r.sys.stream.type = .read) >>= fun _ => _) r = _
  rw [check_bind (decide_eq_true htype)]
  by_cases hidstr : r.idstr = pos.idstr
  · simp [hidstr]
  · simp [hidstr]

theorem datastreamScan_eq (htype : r.sys.stream.type = .read) (pos : MarfsPosition)
    (refpath : List Char) (target : Target) :
    datastreamScan pos refpath target r =
      if r.idstr = pos.idstr then reuseStream false refpath target seekTo r
      else replaceStream pos refpath target r := by
  change (Op.check (r.sys.stream.type = .read) >>= fun _ => _) r = _
  rw [check_bind (decide_eq_true htype)]
  by_cases hidstr : r.idstr = pos.idstr
  · simp [hidstr]
  · simp [hidstr]

theorem replaceStream_path (htype : r.sys.stream.type = .read) (path path' : List Char) :
    replaceStream pos path target r = replaceStream pos path' target r := by
  unfold replaceStream
  simp only [bind, Op.get, htype, genExisting_path path path']

theorem Agrees.of_eq {refpath : List Char}
    (h : datastreamOpen preserve .read pos path target r = datastreamScan pos refpath target r) :
    Agrees preserve pos path refpath target r :=
  ⟨congrArg (fun result => result.1) h, congrArg (fun result => result.2.sys.live) h,
    fun _ => congrArg (fun result => result.2) h⟩

/-- Opening a target and scanning it agree, unless the target is in the object that the stream is at and
that object is not open. -/
theorem agrees_iff (r : Reader) (htype : r.sys.stream.type = .read) (preserve : Bool)
    (pos : MarfsPosition) (path refpath : List Char) (target : Target) :
    Agrees preserve pos path refpath target r ↔ ¬ Unopened pos target r := by
  have hopen := datastreamOpen_eq htype preserve pos path target
  have hscan := datastreamScan_eq htype pos refpath target
  by_cases hidstr : r.idstr = pos.idstr
  swap
  · -- another namespace
    rw [if_neg hidstr] at hopen hscan
    refine iff_of_true (Agrees.of_eq ?_) fun h => hidstr h.namespaces
    rw [hopen, hscan, replaceStream_path htype]
  rw [if_pos hidstr] at hopen hscan
  by_cases hleads : ∃ ftag, target.Leads r.sys.stream.type ftag
  swap
  · -- there is no file that the stream could go on at
    obtain ⟨s₁, hs₁, hlive₁⟩ := progressFile_missed preserve path hleads
    obtain ⟨s₂, hs₂, hlive₂⟩ := progressFile_missed false refpath hleads
    rw [reuseStream_missed hs₁] at hopen
    rw [reuseStream_missed hs₂] at hscan
    refine iff_of_true ⟨?_, ?_, fun hsome => ?_⟩ fun h => hleads ?_
    · rw [hopen, hscan]
    · rw [hopen, hscan]
      exact hlive₁.trans hlive₂.symm
    · rw [hopen] at hsome
      cases hsome
    · obtain ⟨ftag, hftag, -⟩ := h.leads
      exact ⟨ftag, htype ▸ hftag⟩
  obtain ⟨ftag, s', hftag, hentered, hs', hfound⟩ :=
    openExistingFile_found (s := nextPlace r.sys) path hleads
  have hfound' := (openExistingFile_same path refpath target).eq (nextPlace r.sys) htype
  rw [hfound] at hfound'
  rw [reuseStream_found (progressFile_found preserve hfound)] at hopen
  rw [reuseStream_found (progressFile_found false hfound'.symm)] at hscan
  obtain ⟨recoverybytes, hfile⟩ := hentered.file
  have hhandle : s'.stream.datahandle = r.sys.stream.datahandle := hentered.handle
  have hunopened : Unopened pos target r ↔
      Shares r { r with sys := s' } ∧ r.sys.stream.datahandle = none := by
    have hshares : Shares r { r with sys := s' } ↔ ftag.ctag = r.sys.stream.cur.ftag.ctag ∧
        ftag.streamid = r.sys.stream.cur.ftag.streamid ∧ ftag.objno = r.sys.stream.objno := by
      unfold Shares
      simp only [hfile, withRecoverybytes]
      exact ⟨fun h => ⟨h.2.1.symm, h.1.symm, h.2.2.symm⟩, fun h => ⟨h.2.1.symm, h.1.symm, h.2.2.symm⟩⟩
    rw [hshares]
    refine ⟨fun h => ⟨?_, h.closed⟩, fun h => ⟨hidstr, ⟨ftag, htype ▸ hftag, h.1⟩, h.2⟩⟩
    obtain ⟨ftag', hleads', hsame⟩ := h.leads
    obtain rfl : ftag' = ftag := Option.some.inj (Option.some.inj (hleads'.tag.symm.trans hftag.tag))
    exact hsame
  rw [hunopened]
  by_cases hshares : Shares r { r with sys := s' }
  swap
  · -- the object of the stream is closed
    refine iff_of_true (Agrees.of_eq ?_) fun h => hshares h.1
    rw [hopen, hscan]
    simp only [bind, enterObject_apart hshares seekOpened seekTo]
  by_cases hnone : r.sys.stream.datahandle = none
  · -- the object of the stream is not open
    refine iff_of_false (fun h => ?_) fun h => h ⟨hshares, hnone⟩
    obtain ⟨_, r₁, hr₁, rfl⟩ := wp_returns
      (enterObject_open hshares (hhandle.trans hnone)) fun _ h => h
    obtain ⟨r₂, hr₂, -⟩ := wp_fails (enterObject_scan hshares (hhandle.trans hnone)) fun _ _ h => h
    have houtcome := h.outcome
    rw [hopen, hscan] at houtcome
    simp only [bind, hr₁, hr₂] at houtcome
    cases houtcome
  · refine iff_of_true (Agrees.of_eq ?_) fun h => hnone h.2
    have hsome : ({ r with sys := s' } : Reader).sys.stream.datahandle.isSome := by
      change s'.stream.datahandle.isSome
      rw [hhandle]
      exact Option.isSome_iff_ne_none.2 hnone
    rw [hopen, hscan]
    simp only [bind, enterObject_opened hsome]

def sharedObject : Sys :=
  let s := (perform (.write ['x', 'x']) (sampleStream 400 [])).2
  let s := (perform (.write ['y', 'y']) (perform (.create ['b'] sampleStat) s).2).2
  (perform .close s).2

/-- The namespace of the two files. -/
def samplePos : MarfsPosition := { idstr := ['n'], scheme := sampleScheme 400 }

/-- Once the first file has been read, its object is open. -/
theorem sharedObject_agrees : ∃ r, readerOf sharedObject 0 = some r ∧
    Agrees false samplePos ['b'] ['r'] (targetOf sharedObject 1) (datastreamRead 1 r).2 := by
  have hread : (readerOf sharedObject 0).all (fun r =>
      decide ((datastreamRead 1 r).2.sys.stream.type = .read) &&
        (datastreamRead 1 r).2.sys.stream.datahandle.isSome) = true := by decide +kernel
  obtain ⟨r, hr⟩ : ∃ r, readerOf sharedObject 0 = some r :=
    Option.isSome_iff_exists.1 (by decide +kernel)
  rw [hr, Option.all_some, Bool.and_eq_true] at hread
  refine ⟨r, hr, (agrees_iff _ (of_decide_eq_true hread.1) _ _ _ _ _).2 fun h => ?_⟩
  have hsome := hread.2
  rw [h.closed] at hsome
  cases hsome

/-- Before that, the second file can be opened, and not scanned. -/
theorem sharedObject_unscanned : ∃ r, readerOf sharedObject 0 = some r ∧
    ¬ Agrees false samplePos ['b'] ['r'] (targetOf sharedObject 1) r := by
  have hdiffer : (readerOf sharedObject 0).all (fun r =>
      (datastreamOpen false .read samplePos ['b'] (targetOf sharedObject 1) r).1.isSome &&
        (datastreamScan samplePos ['r'] (targetOf sharedObject 1) r).1.isNone) = true := by
    decide +kernel
  obtain ⟨r, hr⟩ : ∃ r, readerOf sharedObject 0 = some r :=
    Option.isSome_iff_exists.1 (by decide +kernel)
  rw [hr, Option.all_some, Bool.and_eq_true] at hdiffer
  refine ⟨r, hr, fun h => ?_⟩
  have hopen := hdiffer.1
  rw [h.outcome, Option.isNone_iff_eq_none.1 hdiffer.2] at hopen
  cases hopen

end Reader

end Marfs.Datastream
