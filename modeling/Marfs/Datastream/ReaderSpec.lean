import Marfs.Datastream.Chunkbounds
import Marfs.Datastream.Reader
import Marfs.Datastream.StreamSpec

/-!
# What the operations of a reader do

`gettargets` only looks, and where it looks for is a number (`Stream.target`).  Everything a reader does
to its data handle leaves the file of the stream and its position alone (`Steady`).
-/

namespace Marfs.Datastream

open Machine Recovery Tagging Sys
open Machine.Op

/-- How far a stream has come from the start of its file, as `gettargets` computes it. -/
def Stream.distance (stream : Stream) : Nat :=
  let used :=
    if stream.offset ≠ 0 then SizeT.sub stream.offset stream.recoveryheaderlen else 0
  if stream.objno > stream.cur.ftag.objno then
    SizeT.sub stream.dataperobj stream.minoffset +
      (stream.objno - (stream.cur.ftag.objno + 1)) * stream.dataperobj + used
  else if stream.offset ≠ 0 then SizeT.sub used stream.minoffset else 0

def Stream.target (stream : Stream) (offset : Nat) : Whence → Nat
  | .set => offset
  | .end => SizeT.wrap (offset + stream.filesize)
  | .cur => SizeT.wrap (offset + stream.distance + stream.excessoffset)

def Stream.Reaches (stream : Stream) (offset : Nat) : Prop :=
  offset < offMax ∧ (offset ≤ stream.filesize ∨ stream.type = .create ∨ stream.type = .repack)

instance (stream : Stream) (offset : Nat) : Decidable (stream.Reaches offset) :=
  inferInstanceAs (Decidable (_ ∧ _))

def Stream.positionOf (stream : Stream) (offset : Nat) : Position :=
  stream.position stream.dataperobj stream.minoffset offset

/-- A path leads to a file that a stream may go on at. -/
structure Target.Leads (target : Target) (type : StreamType) (ftag : Ftag) : Prop where
  opens : target.opens = true
  tag : target.ftag = some (some ftag)
  access : accessible type ftag = true
  stat : target.stat.isSome

namespace Sys

variable {s : Sys}

theorem usedData_spec :
    wp usedData (fun used s' => used = (if s.stream.offset ≠ 0 then
      SizeT.sub s.stream.offset s.stream.recoveryheaderlen else 0) ∧ s'.stream = s.stream)
      (fun _ => False) s := by
  refine wp_bind.2 (wp_get.2 (wp_ite.2 ⟨fun hoff => wp_space.2 ?_, fun hzero => wp_pure.2 ?_⟩))
  · exact ⟨(if_pos hoff).symm, rfl⟩
  · exact ⟨(if_neg hzero).symm, rfl⟩

theorem moved_spec :
    wp (moved s.stream.dataperobj s.stream.minoffset) (fun distance s' =>
      distance = s.stream.distance ∧ s'.stream = s.stream) (fun _ => False) s := by
  refine wp_bind.2 (wp_get.2 (wp_ite.2 ⟨fun hbeyond => ?_, fun hfst => ?_⟩))
  · refine wp_bind.2 (wp_space.2 (wp_bind.2 (wp_mono usedData_spec ?_ fun _ h => h)))
    rintro used s' ⟨hused, hstr⟩
    refine wp_pure.2 ⟨?_, hstr⟩
    rw [Stream.distance, if_pos hbeyond, hused]
  · refine wp_bind.2 (wp_mono usedData_spec ?_ fun _ h => h)
    rintro used s' ⟨hused, hstr⟩
    refine wp_pure.2 ⟨?_, hstr⟩
    rw [Stream.distance, if_neg hfst, hused]

theorem fromStart_spec (offset : Nat) (whence : Whence) :
    wp (fromStart s.stream.dataperobj s.stream.minoffset offset whence) (fun target s' =>
      target = s.stream.target offset whence ∧ s'.stream = s.stream) (fun _ => False) s := by
  cases whence with
  | set => exact wp_pure.2 ⟨rfl, rfl⟩
  | «end» => exact wp_bind.2 (wp_get.2 (wp_pure.2 ⟨rfl, rfl⟩))
  | cur =>
    refine wp_bind.2 (wp_get.2 (wp_bind.2 (wp_mono moved_spec ?_ fun _ h => h)))
    rintro distance s' ⟨rfl, hstr⟩
    exact wp_pure.2 ⟨rfl, hstr⟩

theorem wp_call_of_success {Q : Unit → Sys → Prop} {E : Sys → Prop}
    (h : s.outcomes.head?.join = none) (hQ : ∀ os, Q () { s with outcomes := os }) :
    wp call Q E s := by
  have hrun : call s = (some (), { s with outcomes := s.outcomes.tail }) := by
    cases hs : s.outcomes with
    | nil =>
      have hsame : s = { s with outcomes := [] } := by rw [← hs]
      simp [call, outcome, bind, pure, Op.check, hs, ← hsame]
    | cons o os =>
      have ho : o = none := by simpa [hs] using h
      simp [call, outcome, bind, pure, Op.check, hs, ho]
  exact wp_of_some hrun (hQ _)

theorem gettargets_spec (offset : Nat) (whence : Whence) :
    wp (Sys.gettargets offset whence) (fun pos _ =>
      s.stream.Reaches (s.stream.target offset whence) ∧
        pos = s.stream.positionOf (s.stream.target offset whence))
      (fun _ => ¬ s.stream.Reaches (s.stream.target offset whence)) s := by
  have hfrom : ∀ wrapped, wp (fromStart
      (SizeT.sub s.stream.cur.ftag.objsize
        (s.stream.cur.ftag.recoverybytes + s.stream.recoveryheaderlen))
      (SizeT.sub s.stream.cur.ftag.offset s.stream.recoveryheaderlen) offset whence)
      (fun target s' => target = s.stream.target offset whence ∧ s'.stream = s.stream)
      (fun _ => False) { s with wrapped := wrapped } := fun wrapped =>
    fromStart_spec (s := { s with wrapped := wrapped }) offset whence
  refine wp_bind.2 (wp_get.2 (wp_bind.2 (wp_space.2 (wp_bind.2 (wp_space.2 (wp_bind.2
    (wp_mono (hfrom _) ?_ fun _ h => h.elim)))))))
  rintro target s' ⟨rfl, -⟩
  refine wp_bind.2 (wp_check.2 ⟨fun hmax => ?_, fun hmax h => ?_⟩)
  · refine wp_bind.2 (wp_check.2 ⟨fun hsize => wp_pure.2 ⟨⟨of_decide_eq_true hmax, ?_⟩, rfl⟩,
      fun hsize h => ?_⟩)
    · simpa [or_assoc] using hsize
    · have hreach := h.2
      simp only [Bool.or_eq_false_iff, decide_eq_false_iff_not] at hsize
      exact hreach.elim hsize.1.1 fun h => h.elim hsize.1.2 hsize.2
  · exact of_decide_eq_false hmax h.1

/-! ## Opening files -/

/-- What `open_existing_file` makes of a stream that goes on at a file. -/
structure Entered (ftag : Ftag) (stream stream' : Stream) : Prop where
  type : stream'.type = stream.type
  curfile : stream'.curfile = stream.curfile
  handle : stream'.datahandle = stream.datahandle
  others : ∀ i, i ≠ stream.curfile → stream'.files i = stream.files i
  file : ∃ recoverybytes, stream'.cur.ftag = withRecoverybytes recoverybytes ftag
  header : stream'.recoveryheaderlen = headerLength ftag
  objno : stream'.objno = ftag.objno
  offset : stream'.offset = ftag.offset
  excess : stream'.excessoffset = 0

variable {stream stream' : Stream} {ftag : Ftag}

theorem Entered.cur_objno (h : Entered ftag stream stream') : stream'.cur.ftag.objno = ftag.objno := by
  obtain ⟨_, hfile⟩ := h.file
  rw [hfile]
  rfl

theorem Entered.cur_offset (h : Entered ftag stream stream') : stream'.cur.ftag.offset = ftag.offset := by
  obtain ⟨_, hfile⟩ := h.file
  rw [hfile]
  rfl

theorem entered_inherit (recoverybytes : Nat) (htype : stream'.type = stream.type)
    (hcur : stream'.curfile = stream.curfile) (hhdl : stream'.datahandle = stream.datahandle)
    (hoths : ∀ i, i ≠ stream.curfile → stream'.files i = stream.files i)
    (hfile : (stream'.files stream.curfile).ftag = withRecoverybytes recoverybytes ftag) :
    Entered ftag stream (inherit ftag stream') :=
  ⟨htype, hcur, hhdl, hoths, ⟨recoverybytes, by rw [← hfile, ← hcur]; rfl⟩, rfl, rfl,
    rfl, rfl⟩

theorem genrecoveryinfo_spec (path : List Char) (stat : FileStat) :
    wp (genrecoveryinfo path stat) (fun _ s' => ∃ finfo recoverybytes, s' = { s with
      stream := (s.stream.setFile s.stream.curfile { s.stream.cur with
        ftag := withRecoverybytes recoverybytes s.stream.cur.ftag }).setFinfo finfo })
      (fun _ => False) s := by
  have hsame : s.stream.setFile s.stream.curfile { s.stream.cur with
      ftag := withRecoverybytes s.stream.cur.ftag.recoverybytes s.stream.cur.ftag } = s.stream :=
    Stream.setFile_self s.stream s.stream.curfile
  refine wp_bind.2 (wp_get.2 (wp_ite.2 ⟨fun _ => wp_modifyStream.2 ?_, fun _ => ?_⟩))
  · refine ⟨stat.finfo stat.size s.stream.finfo.path, s.stream.cur.ftag.recoverybytes, ?_⟩
    rw [hsame]
  · refine wp_bind.2 (wp_modifyStream.2 (wp_modifyFtag.2 ⟨stat.finfo 0 path,
      if s.stream.cur.ftag.recoverybytes = 0 then finfoLength (stat.finfo 0 path)
      else s.stream.cur.ftag.recoverybytes, ?_⟩))
    by_cases hzero : s.stream.cur.ftag.recoverybytes = 0
    · simp only [Stream.setFinfo, Stream.setFile, Stream.cur] at hzero ⊢
      simp only [hzero, if_true]
    · simp only [Stream.setFinfo, Stream.setFile, Stream.cur] at hzero ⊢
      simp only [hzero, if_false]
      rfl

theorem openExistingFile_spec (path : List Char) (target : Target) :
    wp (openExistingFile path target) (fun found s' =>
      (found = true → ∃ ftag, target.Leads s.stream.type ftag ∧
        Entered ftag s.stream s'.stream ∧ s' = { s with stream := s'.stream }) ∧
      (found = false → ¬ ∃ ftag, target.Leads s.stream.type ftag))
      (fun _ => ¬ ∃ ftag, target.Leads s.stream.type ftag) s := by
  refine wp_bind.2 (wp_get.2 (wp_bind.2 (wp_modifyFile.2 (wp_bind.2 (wp_check.2
    ⟨fun hopens => ?_, fun hopens => ?_⟩)))))
  swap
  · rintro ⟨ftag, hleads⟩
    exact absurd (hleads.opens.symm.trans hopens) (by decide)
  refine wp_bind.2 (wp_onFail.2 (wp_ofOption.2 ⟨fun ftag hftag => ?_, fun hnone => ?_⟩))
  swap
  · rintro ⟨ftag, hleads⟩
    exact absurd (hleads.tag.symm.trans hnone) (by simp)
  cases ftag with
  | none =>
    have hnot : ¬ ∃ ftag, target.Leads s.stream.type ftag := by
      rintro ⟨ftag, hleads⟩
      exact absurd (hleads.tag.symm.trans hftag) (by simp)
    refine wp_bind.2 (wp_onFail.2 (wp_check.2 ⟨fun _ => wp_pure.2 ⟨?_, fun _ => hnot⟩, fun _ => hnot⟩))
    exact fun hfalse => absurd hfalse (by decide)
  | some ftag =>
    -- there is no other FTAG
    have honly : ∀ ftag', target.Leads s.stream.type ftag' → ftag' = ftag := fun ftag' hleads =>
      Option.some.inj (Option.some.inj (hleads.tag.symm.trans hftag))
    refine wp_bind.2 (wp_onFail.2 (wp_bind.2 (wp_get.2 (wp_bind.2 (wp_modifyFtag.2 ?_)))))
    refine wp_bind.2 (wp_check.2 ⟨fun haccess => ?_, fun haccess => ?_⟩)
    swap
    · rintro ⟨ftag', hleads⟩
      obtain rfl := honly ftag' hleads
      exact absurd (hleads.access.symm.trans haccess) (by decide)
    refine wp_bind.2 (wp_ofOption.2 ⟨fun stat hstat => ?_, fun hnone => ?_⟩)
    swap
    · rintro ⟨ftag', hleads⟩
      have hsome := hleads.stat
      rw [hnone] at hsome
      cases hsome
    have hleads : target.Leads s.stream.type ftag := ⟨hopens, hftag, haccess, by rw [hstat]; rfl⟩
    refine wp_bind.2 (wp_mono (genrecoveryinfo_spec path stat) ?_ fun _ h => h.elim)
    rintro _ s' ⟨finfo, recoverybytes, rfl⟩
    refine wp_bind.2 (wp_check.2 ⟨fun _ => ?_, fun hhdr => ?_⟩)
    swap
    · exact absurd (headerLength_pos ftag) (of_decide_eq_false hhdr)
    refine wp_modifyStream.2 (wp_pure.2 ⟨fun _ => ⟨ftag, hleads, ?_, rfl⟩, fun hfalse =>
      absurd hfalse (by decide)⟩)
    refine entered_inherit recoverybytes ?_ ?_ ?_ (fun i hi => ?_) ?_
    · rfl
    · rfl
    · rfl
    · simp [Stream.setFinfo, Stream.setFile, hi]
    · simp [Stream.setFinfo, Stream.setFile, Stream.cur]

theorem genExisting_spec {type : StreamType} {pos : MarfsPosition} {path : List Char} {target : Target}
    (h : genExisting type pos path target = some stream) :
    ∃ ftag blank, blank.type = type ∧ blank.datahandle = none ∧ target.Leads type ftag ∧
      Entered ftag blank stream := by
  let blank := fresh type pos.scheme [] [] []
  have hspec := openExistingFile_spec path target
    (s := { blank with stream := { blank.stream with recoveryheaderlen := 0, offset := 0 } })
  unfold genExisting at h
  dsimp only at h
  split at h
  · next s' hrun =>
    obtain rfl := Option.some.inj h
    obtain ⟨ftag, hleads, hent, -⟩ := (wp_some hspec hrun).1 rfl
    exact ⟨ftag, _, rfl, rfl, hleads, hent⟩
  · cases h

end Sys

namespace Reader

variable {r : Reader} {α : Type}

theorem gettargets_eq (offset : Nat) (whence : Whence) (r : Reader) :
    gettargets offset whence r =
      (if r.sys.stream.Reaches (r.sys.stream.target offset whence)
        then some (r.sys.stream.positionOf (r.sys.stream.target offset whence)) else none, r) := by
  have hspec := gettargets_spec (s := r.sys) offset whence
  unfold gettargets
  rcases hrun : Sys.gettargets offset whence r.sys with ⟨_ | pos, s'⟩
  · have hnot := wp_none hspec hrun
    rw [if_neg hnot]
  · obtain ⟨hreach, rfl⟩ := wp_some hspec hrun
    rw [if_pos hreach]

variable {offset : Nat} {E : Reader → Prop} {Q : Unit → Reader → Prop}

theorem gettargets_congr {offset' : Nat} {whence whence' : Whence}
    (h : r.sys.stream.target offset whence = r.sys.stream.target offset' whence') :
    gettargets offset whence r = gettargets offset' whence' r := by
  rw [gettargets_eq, gettargets_eq, h]

theorem wp_gettargets {whence : Whence} {Q : Position → Reader → Prop} :
    wp (gettargets offset whence) Q E r ↔
      (r.sys.stream.Reaches (r.sys.stream.target offset whence) →
        Q (r.sys.stream.positionOf (r.sys.stream.target offset whence)) r) ∧
      (¬ r.sys.stream.Reaches (r.sys.stream.target offset whence) → E r) := by
  have heq := gettargets_eq offset whence r
  by_cases hreach : r.sys.stream.Reaches (r.sys.stream.target offset whence)
  · rw [if_pos hreach] at heq
    refine ⟨fun h => ⟨fun _ => wp_some h heq, fun hnot => absurd hreach hnot⟩, fun h => ?_⟩
    exact wp_of_some heq (h.1 hreach)
  · rw [if_neg hreach] at heq
    refine ⟨fun h => ⟨fun hyes => absurd hyes hreach, fun _ => wp_none h heq⟩, fun h => ?_⟩
    exact wp_of_none heq (h.2 hreach)

@[simp] theorem wp_onSys {m : Op Sys α} {Q : α → Reader → Prop} :
    wp (onSys m) Q E r ↔
      wp m (fun a s => Q a { r with sys := s }) (fun s => E { r with sys := s }) r.sys := wp_zoom

/-! ## The data handle -/

theorem wp_seekTo
    (hQ : ∀ h os, r.sys.stream.datahandle = some h → offset ≤ (r.object h).length →
      Q () { r with sys := { r.sys with outcomes := os }, place := offset })
    (hE : ∀ os place, E { r with sys := { r.sys with outcomes := os }, place := place }) :
    wp (seekTo offset) Q E r := by
  refine wp_bind.2 (wp_bind.2 (wp_get.2 ?_))
  cases hhdl : r.sys.stream.datahandle with
  | none => exact wp_fail.2 (hE r.sys.outcomes r.place)
  | some h =>
    refine wp_bind.2 (wp_onSys.2 (wp_call (fun os => ?_) fun os => hE os r.place))
    refine wp_bind.2 (wp_modify.2 (wp_pure.2 (wp_check.2 ⟨fun hplc => ?_, fun _ => hE os _⟩)))
    have hmin := of_decide_eq_true hplc
    rw [hmin]
    exact hQ h os hhdl (hmin ▸ Nat.min_le_right _ _)

theorem wp_neRead {count : Nat} {Q : List Char → Reader → Prop}
    (hQ : ∀ h os n, r.sys.stream.datahandle = some h → count ≤ uintMax →
      Q (((r.object h).drop r.place).take (min n count))
        { r with
          sys := { r.sys with outcomes := os }
          place := r.place + (((r.object h).drop r.place).take (min n count)).length })
    (hE : E r) : wp (neRead count) Q E r := by
  refine wp_bind.2 (wp_get.2 ?_)
  cases hhdl : r.sys.stream.datahandle with
  | none => exact wp_fail.2 hE
  | some h =>
    refine wp_bind.2 (wp_check.2 ⟨fun hcnt => ?_, fun _ => hE⟩)
    refine wp_bind.2 (wp_onSys.2 (wp_outcome fun o os => wp_bind.2 (wp_modify.2 (wp_pure.2 ?_))))
    rw [List.take_take]
    exact hQ h os _ hhdl (of_decide_eq_true hcnt)

def Steady (R : Stream → Prop) : Prop := ∀ stream h, R stream → R { stream with datahandle := h }

def OnStream (R : Stream → Prop) (r : Reader) : Prop := R r.sys.stream

variable {R : Stream → Prop}

theorem keeps_call : Keeps (OnStream R) (onSys call) := fun _ h =>
  wp_onSys.2 (wp_call (fun _ => h) fun _ => h)

theorem keeps_seekTo (offset : Nat) : Keeps (OnStream R) (seekTo offset) := fun _ h =>
  wp_seekTo (fun _ _ _ _ => h) fun _ _ => h

theorem keeps_openCurrentObj (hR : Steady R) : Keeps (OnStream R) openCurrentObj := by
  have habt : Keeps (OnStream R) (onSys neAbort) := fun r h => wp_onSys.2 (wp_modify.2 (hR _ _ h))
  refine Keeps.bind keeps_call fun _ => Keeps.bind keeps_call fun _ => Keeps.bind Keeps.get fun r => ?_
  refine Keeps.bind (Keeps.check _) fun _ => Keeps.bind (Keeps.modify fun r h => hR _ _ h) fun _ => ?_
  exact Keeps.ite ((keeps_seekTo _).onFail habt) (Keeps.pure _)

theorem keeps_openNeeded (hR : Steady R) : Keeps (OnStream R) openNeeded :=
  Keeps.bind Keeps.get fun _ => Keeps.ite (keeps_openCurrentObj hR) (Keeps.pure _)

theorem readPiece_spec (hR : Steady R) (h : R r.sys.stream) (toread : Nat) :
    wp (readPiece toread) (fun bytes r' => bytes.length ≤ toread ∧ ∃ stream, R stream ∧
      r'.sys.stream = { stream with offset := stream.offset + bytes.length }) (fun _ => False) r := by
  have hmove : ∀ (piece : Option (List Char)) r', (piece.getD []).length ≤ toread → R r'.sys.stream →
      wp (do
        onSys (modifyStream fun stream =>
          { stream with offset := stream.offset + (piece.getD []).length })
        pure (piece.getD []) : Op Reader (List Char)) (fun bytes r' => bytes.length ≤ toread ∧
          ∃ stream, R stream ∧ r'.sys.stream = { stream with offset := stream.offset + bytes.length })
        (fun _ => False) r' := fun piece r' hlen h' =>
    wp_bind.2 (wp_onSys.2 (wp_modifyStream.2 (wp_pure.2 ⟨hlen, r'.sys.stream, h', rfl⟩)))
  refine wp_bind.2 (wp_attempt.2 (wp_bind.2 (wp_mono (keeps_openNeeded hR r h) ?_ ?_)))
  · intro _ r' h'
    refine wp_neRead (fun i os n _ _ => ?_) (hmove none r' (Nat.zero_le _) h')
    refine hmove (some _) _ ?_ h'
    exact (List.length_take_le _ _).trans (Nat.min_le_right _ _)
  · exact fun r' h' => hmove none r' (Nat.zero_le _) h'

theorem wp_closeOrFree
    (hQ : ∀ os closed, Q () { r with sys := { r.sys with
      outcomes := os, closed := closed, stream := { r.sys.stream with datahandle := none } } })
    (hE : ∀ s, s.live = false → E { r with sys := s }) :
    wp (onSys (closeCurrentObj.onFail freestream)) Q E r := by
  refine wp_onSys.2 (wp_onFail.2 (wp_closeCurrentObj (fun hnone => ?_) (fun h os _ => hQ os _)
    fun _ _ _ => hE _ rfl))
  have hsame : { r.sys.stream with datahandle := none } = r.sys.stream := by rw [← hnone]
  have hreader := hQ r.sys.outcomes r.sys.closed
  rw [hsame] at hreader
  exact hreader

def HandleWorks (r : Reader) : Prop :=
  r.sys.stream.datahandle = none ∨ r.sys.outcomes.head?.join = none

theorem seekTo_works {h : Nat}
    (hhdl : r.sys.stream.datahandle = some h) (hcall : r.sys.outcomes.head?.join = none)
    (hle : offset ≤ (r.object h).length)
    (hQ : ∀ os, Q () { r with sys := { r.sys with outcomes := os }, place := offset }) :
    wp (seekTo offset) Q E r := by
  refine wp_bind.2 (wp_bind.2 (wp_get.2 ?_))
  rw [hhdl]
  refine wp_bind.2 (wp_onSys.2 (wp_call_of_success hcall fun os => ?_))
  have hmin : min offset (r.object h).length = offset := Nat.min_eq_left hle
  refine wp_bind.2 (wp_modify.2 (wp_pure.2 (wp_check.2 ⟨fun _ => ?_, fun hshort => ?_⟩)))
  · rw [hmin]
    exact hQ os
  · exact absurd hmin (of_decide_eq_false hshort)

end Reader

end Marfs.Datastream
