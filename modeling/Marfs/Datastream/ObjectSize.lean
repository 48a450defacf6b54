import Marfs.Datastream.StreamSpec

/-!
# The size of data objects

The room for data in an object is computed anew for every call, from the length of the recovery
header, the recovery info of the current file and the position of the stream.  `Fits` is what keeps
these subtractions from wrapping around and an object from growing beyond the object size.  All calls
restore it but one: `datastream_setrecoverypath` gives a file that has been placed already another
length of recovery info.
-/

namespace Marfs.Datastream

open Machine Recovery Tagging

def size (segments : List Segment) : Nat := (content segments).length

@[simp] theorem size_append (segments segments' : List Segment) :
    size (segments ++ segments') = size segments + size segments' := by
  simp [size, content]

@[simp] theorem size_singleton (segment : Segment) : size [segment] = segment.bytes.length := by
  simp [size, content]

namespace Sys

open Op

variable {S : Nat} {s s' : Sys} {ftag ftag' : Ftag} {stream stream' : Stream}
  {objs objs' : Nat → List Segment}

theorem size_pieces {segment : List Char → Segment} (hbytes : ∀ w, (segment w).bytes = w)
    (w : List Char) : size (pieces segment w) = w.length := by
  unfold pieces
  split
  · next h =>
    rw [h]
    rfl
  · rw [size_singleton, hbytes]

/-- No object has outgrown the object size, and no room was computed that is not there. -/
structure Bounded (S : Nat) (objs : Nat → List Segment) (wrapped : Bool) : Prop where
  size_le : ∀ i, size (objs i) ≤ S
  wrapped : wrapped = false

/-- The current file and the stream leave room for the recovery info in every object. -/
structure Fits (S : Nat) (ftag : Ftag) (stream : Stream) (objs : Nat → List Segment) : Prop where
  scheme : stream.scheme.objsize = S
  objsize : ftag.objsize = S
  info_lt : ftag.recoverybytes + stream.recoveryheaderlen < S
  objno_le : ftag.objno ≤ stream.objno
  start_ge : stream.recoveryheaderlen ≤ ftag.offset
  start_le : ftag.objno < stream.objno → ftag.offset + ftag.recoverybytes ≤ S
  begun : ftag.objno = stream.objno → ftag.offset ≤ stream.offset
  offset_ge : stream.recoveryheaderlen ≤ stream.offset
  offset_le : stream.offset ≤ S
  info_le : ftag.unfinalized → stream.offset + ftag.recoverybytes ≤ S
  handle : ∀ h, stream.datahandle = some h → size (objs h) = stream.offset

/-- What holds between calls. -/
structure Good (S : Nat) (s : Sys) : Prop extends Bounded S s.objs s.wrapped where
  fits : Fits S s.stream.cur.ftag s.stream s.objs

/-- What holds where a call failed, too. -/
def Kept (S : Nat) (s : Sys) : Prop :=
  Bounded S s.objs s.wrapped ∧ (s.live = true → Good S s)

theorem Good.kept (h : Good S s) : Kept S s := ⟨h.toBounded, fun _ => h⟩

theorem Bounded.dead {wrapped : Bool} (h : Bounded S objs wrapped) (hobjs : s.objs = objs)
    (hwrap : s.wrapped = wrapped) (hlive : s.live = false) : Kept S s := by
  subst hobjs hwrap
  exact ⟨h, fun hs => by simp [hlive] at hs⟩

theorem Bounded.append {wrapped : Bool} (h : Bounded S s.objs wrapped) {i : Nat} {segments : List Segment}
    (hsize : size (s.objs i) + size segments ≤ S) : Bounded S (append i segments s).objs wrapped := by
  refine ⟨fun j => ?_, h.wrapped⟩
  simp only [Sys.append]
  split
  · next hj =>
    rw [hj, size_append]
    exact hsize
  · exact h.size_le j

/-- The tag may change where the file is left in its place. -/
theorem Fits.retag (h : Fits S ftag stream objs) (hsize : ftag'.objsize = ftag.objsize)
    (hinfo : ftag'.recoverybytes = ftag.recoverybytes) (hobj : ftag'.objno = ftag.objno)
    (hoff : ftag'.offset = ftag.offset) (hstate : ftag'.unfinalized → ftag.unfinalized) :
    Fits S ftag' stream objs := by
  refine ⟨h.scheme, hsize.trans h.objsize, ?_, ?_, ?_, ?_, ?_, h.offset_ge, h.offset_le, ?_,
    h.handle⟩
  · rw [hinfo]
    exact h.info_lt
  · rw [hobj]
    exact h.objno_le
  · rw [hoff]
    exact h.start_ge
  · rw [hobj, hoff, hinfo]
    exact h.start_le
  · rw [hobj, hoff]
    exact h.begun
  · rw [hinfo]
    exact fun hunfin => h.info_le (hstate hunfin)

theorem Fits.roomy (h : Fits S stream.cur.ftag stream objs) (hS : S < SizeT.modulus) : Roomy stream := by
  have hinfo := h.info_lt
  refine ⟨?_, ?_, h.start_ge, fun hlt => ?_, h.offset_ge⟩
  · rw [h.objsize]
    exact hS
  · rw [h.objsize]
    omega
  · rw [h.objsize]
    exact h.start_le hlt

theorem Fits.move (h : Fits S ftag stream objs) (hsch : stream'.scheme = stream.scheme)
    (hhdr : stream'.recoveryheaderlen = stream.recoveryheaderlen) (hobj : stream'.objno = stream.objno)
    (hoff : stream'.offset = stream.offset) (hhdl : stream'.datahandle = stream.datahandle) :
    Fits S ftag stream' objs := by
  refine ⟨(congrArg Scheme.objsize hsch).trans h.scheme, h.objsize, ?_, ?_, ?_, ?_, ?_, ?_, ?_, ?_, ?_⟩
  all_goals simp only [hhdr, hobj, hoff, hhdl]
  · exact h.info_lt
  · exact h.objno_le
  · exact h.start_ge
  · exact h.start_le
  · exact h.begun
  · exact h.offset_ge
  · exact h.offset_le
  · exact h.info_le
  · exact h.handle

/-- A step that changes neither the numbers nor the objects. -/
theorem Good.keep (h : Good S s) (hobjs : s'.objs = s.objs) (hwrap : s'.wrapped = s.wrapped)
    (hfits : Fits S s'.stream.cur.ftag s'.stream s.objs) : Good S s' := by
  refine ⟨⟨fun i => ?_, hwrap.trans h.wrapped⟩, ?_⟩
  · rw [hobjs]
    exact h.size_le i
  · rw [hobjs]
    exact hfits

theorem Good.retag (h : Good S s) (hobjs : s'.objs = s.objs) (hwrap : s'.wrapped = s.wrapped)
    (hcur : s'.stream.cur.ftag = ftag) (hfits : Fits S ftag s'.stream s.objs) : Good S s' :=
  h.keep hobjs hwrap (hcur.symm ▸ hfits)

theorem Good.opens (h : Good S s) (hnone : s.stream.datahandle = none) :
    wp openCurrentObj (fun _ => Good S) (Good S) s := by
  have hsized : ∀ os ftags, Good S { s with
      outcomes := os, ftags := ftags
      stream := s.stream.setFile s.stream.curfile
        { s.stream.cur with ftag := sized s.stream.cur.ftag } } := by
    intro os ftags
    refine h.keep rfl rfl ?_
    simp only [Stream.cur_setFile]
    refine Fits.retag (h.fits.move rfl rfl rfl rfl rfl) rfl rfl rfl rfl ?_
    exact (sized_unfinalized s.stream.cur.ftag).symm.trans
  refine wp_openCurrentObj (fun os ftags _ => ?_) (fun os => ?_) fun os => hsized os _
  · -- the object is emptied; if it gets its header, the stream stands behind it
    have hs := hsized os ftags
    have hemp : ∀ segments, size segments ≤ s.stream.recoveryheaderlen →
        Bounded S (rewritten s segments).objs s.wrapped := by
      intro segments hsize
      refine ⟨fun i => ?_, hs.wrapped⟩
      simp only [rewritten]
      split
      · have := h.fits.info_lt
        omega
      · exact h.size_le i
    refine wp_openHandle hnone (fun os' hoff hhdr => ?_) (fun os' => ?_) fun os' w hw => ?_
    · refine ⟨hemp _ (by rw [size_singleton]; exact hhdr.le), ?_⟩
      obtain ⟨h₁, h₂, h₃, h₄, h₅, h₆, h₇, h₈, h₉, h₁₀, _⟩ := hs.fits
      refine ⟨h₁, h₂, h₃, h₄, h₅, h₆, h₇, h₈, h₉, h₁₀, fun i hi => ?_⟩
      obtain rfl : s.stream.objno = i := by simpa using hi
      simpa [rewritten, size_singleton, Segment.bytes] using hhdr.trans hoff.symm
    · exact hs.keep rfl rfl hs.fits
    · refine ⟨hemp _ (by rw [size_pieces (fun _ => rfl)]; exact hw), ?_⟩
      obtain ⟨h₁, h₂, h₃, h₄, h₅, h₆, h₇, h₈, h₉, h₁₀, _⟩ := hs.fits
      refine ⟨h₁, h₂, h₃, h₄, h₅, h₆, h₇, h₈, h₉, h₁₀, fun i hi => ?_⟩
      exact absurd (hnone.symm.trans hi) (by simp)
  · exact h.keep rfl rfl h.fits

/-- In a fresh object there is room again. -/
theorem Fits.leave (h : Fits S ftag stream objs) (hunfin : ftag.unfinalized)
    (hsch : stream'.scheme = stream.scheme) (hhdr : stream'.recoveryheaderlen = stream.recoveryheaderlen)
    (hobj : stream'.objno = stream.objno + 1) (hoff : stream'.offset = stream.recoveryheaderlen)
    (hnone : stream'.datahandle = none) : Fits S ftag stream' objs' := by
  have hinfo := h.info_lt
  have hle := h.objno_le
  refine ⟨(congrArg Scheme.objsize hsch).trans h.scheme, h.objsize, ?_, ?_, ?_, ?_, ?_, ?_, ?_, ?_,
    fun i hi => absurd (hnone.symm.trans hi) (by simp)⟩
  all_goals simp only [hhdr, hobj, hoff]
  · exact hinfo
  · omega
  · exact h.start_ge
  · intro _
    rcases Nat.lt_or_ge ftag.objno stream.objno with hlt | hge
    · exact h.start_le hlt
    · have hbegun := h.begun (by omega)
      have hroom := h.info_le hunfin
      omega
  · omega
  · exact le_rfl
  · omega
  · omega

theorem Fits.roomLeft_eq (h : Fits S stream.cur.ftag stream objs) (hS : S < SizeT.modulus)
    (hunfin : stream.cur.ftag.unfinalized) :
    roomLeft (dataPerObj stream) stream =
      S - (stream.offset + stream.cur.ftag.recoverybytes) := by
  have hinfo := h.info_lt
  have hle := h.info_le hunfin
  have hge := h.offset_ge
  have hlt : stream.offset < SizeT.modulus := by omega
  rw [roomLeft, (h.roomy hS).dataPerObj_eq, h.objsize, SizeT.sub_of_le hge hlt,
    SizeT.sub_of_le (by omega) (by omega)]
  omega

theorem Fits.leaveObject (h : Fits S s.stream.cur.ftag s.stream s.objs)
    (hunfin : s.stream.cur.ftag.unfinalized) (hbounded : Bounded S s'.objs s'.wrapped)
    (hcur : s'.stream.cur = s.stream.cur) (hsch : s'.stream.scheme = s.stream.scheme)
    (hhdr : s'.stream.recoveryheaderlen = s.stream.recoveryheaderlen)
    (hobj : s'.stream.objno = s.stream.objno) :
    wp leaveObject (fun _ s' => Good S s' ∧ s'.stream.offset = s'.stream.recoveryheaderlen) (Kept S)
      s' := by
  refine wp_bind.2 (wp_retireObject (fun os files ftags hfiles _ => ?_) ?_)
  · refine wp_modifyStream.2 ⟨⟨hbounded, ?_⟩, rfl⟩
    have hcur' := congrArg Streamfile.ftag (hfiles.trans hcur)
    simp only [Stream.cur] at hcur' ⊢
    rw [hcur']
    refine h.leave hunfin hsch hhdr ?_ hhdr rfl
    exact congrArg (· + 1) hobj
  · exact fun os closed ftags stream _ _ => hbounded.dead rfl rfl rfl

theorem Good.turn {dataperobj : Nat} (h : Good S s) (hs : Writing dataperobj s) :
    wp nextObject (fun _ => Good S) (Kept S) s := by
  have hinfo := h.fits.info_le hs.unfinalized
  have hleav : ∀ s', Bounded S s'.objs s'.wrapped → s'.stream.cur = s.stream.cur →
      s'.stream.scheme = s.stream.scheme →
      s'.stream.recoveryheaderlen = s.stream.recoveryheaderlen →
      s'.stream.objno = s.stream.objno → wp leaveObject (fun _ => Good S) (Kept S) s' :=
    fun s' hbounded hcur hsch hhdr hobj =>
      wp_mono (h.fits.leaveObject hs.unfinalized hbounded hcur hsch hhdr hobj)
        (fun _ _ h => h.1) fun _ h => h
  refine wp_bind.2 (wp_bind.2 (wp_get.2 (wp_ite.2 ⟨fun _ => ?_, fun _ => wp_pure.2 ?_⟩)))
  · refine wp_onFail.2 (wp_putfinfo (fun i os finfo block hi hlen _ => ?_) (fun os finfo => ?_) ?_)
    · refine hleav _ (h.toBounded.append ?_) rfl rfl rfl rfl
      rw [size_singleton, h.fits.handle i hi]
      exact (congrArg _ hlen).le.trans hinfo
    · exact h.toBounded.dead rfl rfl rfl
    · intro i os finfo w hi hw
      refine Bounded.dead (h.toBounded.append ?_) rfl rfl rfl
      rw [size_pieces (fun _ => rfl), h.fits.handle i hi]
      omega
  · exact hleav s h.toBounded rfl rfl rfl rfl

theorem Good.data {dataperobj h : Nat} {bytes : List Char} (hS : S < SizeT.modulus)
    (hs : Good S s) (hw : Writing dataperobj s) (hh : s.stream.datahandle = some h)
    (hle : bytes.length ≤ roomLeft dataperobj s.stream) :
    Good S (append h [.data s.stream.cur.ftag.fileno bytes] { s with stream := wrote bytes s }) := by
  have hsize := hs.fits.handle h hh
  have hinfo := hs.fits.info_le hw.unfinalized
  rw [← hw.room, hs.fits.roomLeft_eq hS hw.unfinalized] at hle
  have hlt := hs.fits.info_lt
  have hbegun := hs.fits.begun
  have hge := hs.fits.offset_ge
  refine ⟨hs.toBounded.append ?_, ?_⟩
  · rw [size_singleton, hsize]
    simp only [Segment.bytes]
    omega
  · have hcur : (append h [.data s.stream.cur.ftag.fileno bytes]
        { s with stream := wrote bytes s }).stream.cur = _ := cur_wrote bytes s
    rw [hcur]
    refine Fits.retag ⟨hs.fits.scheme, hs.fits.objsize, hlt, hs.fits.objno_le, hs.fits.start_ge,
      hs.fits.start_le, fun heq => ?_, ?_, ?_, fun _ => ?_, fun i hi => ?_⟩ rfl rfl rfl rfl id
    · exact (hbegun heq).trans (Nat.le_add_right _ _)
    · exact hge.trans (Nat.le_add_right _ _)
    · simp only [Sys.append, wrote]
      omega
    · simp only [Sys.append, wrote]
      omega
    · obtain rfl : h = i := by simpa [Sys.append, wrote, hh] using hi
      simp [Sys.append, wrote, hsize, Segment.bytes]

theorem writeRules (hS : S < SizeT.modulus) : WriteRules (Good S) (Kept S) where
  weaken _ h := h.kept
  io _ _ h := h.keep rfl rfl h.fits
  targets s wrapped h hwrap := by
    refine h.keep rfl ?_ h.fits
    exact hwrap (h.fits.roomy hS)
  room s dataperobj h hs := by
    refine h.keep rfl ?_ h.fits
    have hge := h.fits.offset_ge
    have hinfo := h.fits.info_le hs.unfinalized
    have hlt := h.fits.info_lt
    have hused : SizeT.sub s.stream.offset s.stream.recoveryheaderlen ≤ dataperobj := by
      rw [← hs.room, (h.fits.roomy hS).dataPerObj_eq, h.fits.objsize,
        SizeT.sub_of_le hge (by omega)]
      omega
    simp only [decide_eq_false (Nat.not_lt.2 hge), decide_eq_false (Nat.not_lt.2 hused),
      Bool.or_false]
  turn _ _ h hs _ := h.turn hs
  opens _ _ h _ hnone := h.opens hnone
  data _ _ _ _ h hs hh _ hle := h.data hS hs hh hle

/-! ## The end of a file -/

theorem cur_finished (stream : Stream) : (finished stream).cur.ftag = finalized stream.cur.ftag :=
  congrArg Streamfile.ftag (Stream.cur_setFile _ _)

theorem Good.finishData (h : Good S s) (hunfin : s.stream.cur.ftag.unfinalized) :
    wp finishData (fun _ s' => Good S s' ∧ s.stream.objno ≤ s'.stream.objno)
      (fun s' => Bounded S s'.objs s'.wrapped) s := by
  have hinfo := h.fits.info_le hunfin
  have hge := h.fits.offset_ge
  refine wp_finishData (fun hnone => ⟨⟨h.toBounded, ?_⟩, Nat.le_succ _⟩) ?_
    (fun _ _ => h.toBounded) fun i os finfo w hi hw => h.toBounded.append ?_
  · have hfits : Fits S s.stream.cur.ftag { s.stream with
        objno := s.stream.objno + 1, offset := s.stream.recoveryheaderlen } s.objs :=
      h.fits.leave hunfin rfl rfl rfl rfl hnone
    simp only [cur_finished]
    exact Fits.retag (hfits.move rfl rfl rfl rfl rfl) rfl rfl rfl rfl fun h => by cases h
  · intro i os finfo block hi hlen _
    have hsize := h.fits.handle i hi
    have hblock : size [.finfo s.stream.cur.ftag.fileno block] =
        s.stream.cur.ftag.recoverybytes := (size_singleton _).trans hlen
    refine ⟨⟨h.toBounded.append (by rw [hblock, hsize]; exact hinfo), ?_⟩, le_rfl⟩
    have hcur : (append i [.finfo s.stream.cur.ftag.fileno block] { s with
        outcomes := os
        stream := finished { s.stream with
          finfo := finfo
          offset := s.stream.offset + s.stream.cur.ftag.recoverybytes } }).stream.cur.ftag = _ :=
      cur_finished _
    rw [hcur]
    refine ⟨h.fits.scheme, h.fits.objsize, h.fits.info_lt, h.fits.objno_le, h.fits.start_ge,
      h.fits.start_le, fun heq => ?_, ?_, hinfo, fun h => ?_, fun j hj => ?_⟩
    · exact (h.fits.begun heq).trans (Nat.le_add_right _ _)
    · exact hge.trans (Nat.le_add_right _ _)
    · cases h
    · obtain rfl : i = j := by simpa [Sys.append, finished, hi] using hj
      simp only [Sys.append, if_true, size_append, hblock, hsize]
      rfl
  · rw [size_pieces (fun _ => rfl), h.fits.handle i hi]
    omega

theorem Good.finfile (h : Good S s) :
    wp finfile (fun _ s' => Good S s' ∧ s.stream.objno ≤ s'.stream.objno)
      (fun s' => Bounded S s'.objs s'.wrapped) s := by
  refine wp_finfile h.toBounded (fun _ => ⟨h, le_rfl⟩) (fun hunfin _ hnone => ?_)
    fun hunfin _ => h.finishData hunfin
  refine wp_mono (wp_and (h.opens hnone) (openCurrentObj_spec hnone)) ?_ fun _ h => h.1.toBounded
  intro _ s' ⟨hs', hopen⟩
  have hunfin' : s'.stream.cur.ftag.unfinalized := by
    rw [hopen.ftag, sized_unfinalized, hunfin]
  rw [← hopen.objno]
  exact hs'.finishData hunfin'

/-! ## New files -/

theorem Fits.hold (h : Fits S ftag { stream with datahandle := none } objs)
    (hhdl : ∀ i, stream.datahandle = some i → size (objs' i) = stream.offset) :
    Fits S ftag stream objs' :=
  ⟨h.scheme, h.objsize, h.info_lt, h.objno_le, h.start_ge, h.start_le, h.begun, h.offset_ge,
    h.offset_le, h.info_le, hhdl⟩

theorem Fits.placed (hpos : 0 < S) (hS : S < SizeT.modulus) (h : Placed stream ftag)
    (hsch : stream.scheme.objsize = S) (hge : stream.recoveryheaderlen ≤ stream.offset)
    (hle : stream.recoveryheaderlen < S → stream.offset ≤ S) (finfo : RecoveryFinfo) (metahandle : Bool) :
    Fits S ftag { stream.enter { metahandle := metahandle, ftag := ftag } finfo with
      datahandle := none } objs := by
  have hlt : stream.recoveryheaderlen + ftag.recoverybytes < S := by
    rcases h.fits with hzero | hlt
    · omega
    · exact hsch ▸ hlt
  have hle' := hle (by omega)
  have hsize : ftag.objsize = S := h.empty.2.1.trans hsch
  have hofs : stream.recoveryheaderlen ≤ ftag.offset ∧ ftag.offset + ftag.recoverybytes ≤ S := by
    rcases h.position with ⟨-, hoff, hroom⟩ | ⟨-, hoff⟩
    · rw [hsch, SizeT.sub_of_le hle' hS] at hroom
      omega
    · omega
  refine ⟨hsch, hsize, ?_, le_rfl, hofs.1, fun _ => hofs.2, fun _ => le_rfl, hofs.1,
    ?_, fun _ => hofs.2, fun _ h => by cases h⟩
  · simp only [Stream.enter, Stream.recoveryheaderlen_setFile]
    omega
  · simp only [Stream.enter]
    omega

theorem Good.retire (h : Bounded S s.objs s.wrapped)
    (hfits : ∀ objs, Fits S s.stream.cur.ftag { s.stream with datahandle := none } objs) :
    wp retireObject (fun _ => Good S) (Kept S) s := by
  refine wp_retireObject (fun os files ftags hfiles _ => ⟨h, ?_⟩) fun _ _ _ _ _ _ =>
    h.dead rfl rfl rfl
  have hcur := congrArg Streamfile.ftag hfiles
  simp only [Stream.cur] at hcur hfits ⊢
  rw [hcur]
  exact (hfits s.objs).move rfl rfl rfl rfl rfl

theorem Good.enterNext (hpos : 0 < S) (hS : S < SizeT.modulus) {next : Op Sys Unit} {curobj : Nat}
    (hnext : ∀ s, wp next (fun _ => Enters s) (Refuses s) s) (h : Good S s)
    (hcurobj : curobj ≤ s.stream.objno) : wp (enterNext curobj next) (fun _ => Good S) (Kept S) s := by
  refine wp_bind.2 (wp_modifyStream.2 (wp_bind.2 (wp_onFail.2 (wp_mono (hnext _) ?_ ?_))))
  · intro _ s' ⟨os, ftags, wrapped, ftag, finfo, hplcd, hwrap, _, hs'⟩
    subst hs'
    have hw : wrapped = false := by
      rw [hwrap fun _ => h.fits.scheme.symm ▸ h.fits.offset_le]
      exact h.wrapped
    have hbounded : Bounded S s.objs wrapped := ⟨h.size_le, hw⟩
    have hfits : ∀ objs, Fits S ftag _ objs := fun objs =>
      Fits.placed hpos hS hplcd h.fits.scheme h.fits.offset_ge (fun _ => h.fits.offset_le) finfo true
    refine wp_bind.2 (wp_get.2 (wp_ite.2 ⟨fun _ => Good.retire hbounded fun objs => ?_, ?_⟩))
    · simp only [Stream.cur_enter]
      exact hfits objs
    · intro hsame
      simp only [Stream.cur_enter, ne_eq, Decidable.not_not] at hsame
      -- the file shares the object, and the stream stays where it is
      have hofs : ftag.offset = s.stream.offset := by
        rcases hplcd.position with ⟨-, hoff, -⟩ | ⟨hobj, -⟩
        · exact hoff
        · change ftag.objno = s.stream.objno + 1 at hobj
          omega
      refine wp_pure.2 ⟨hbounded, ?_⟩
      simp only [Stream.cur_enter]
      refine (hfits s.objs).hold fun i hi => ?_
      exact (h.fits.handle i hi).trans hofs.symm
  · intro s' ⟨os, ftags, wrapped, finfo, hwrap, _, hs'⟩
    subst hs'
    have hw : wrapped = s.wrapped := hwrap fun _ => h.fits.scheme.symm ▸ h.fits.offset_le
    refine Good.kept (h.keep rfl hw ?_)
    simp only [modifyStream_snd, Nat.add_sub_cancel, Stream.cur]
    exact h.fits.move rfl rfl rfl rfl rfl

theorem Good.nextFile (hpos : 0 < S) (hS : S < SizeT.modulus) {next : Op Sys Unit}
    (hnext : ∀ s, wp next (fun _ => Enters s) (Refuses s) s) (h : Good S s) :
    wp (nextFile next) (fun _ => Good S) (Kept S) s := by
  refine wp_bind.2 (wp_get.2 (wp_bind.2 (wp_onFail.2 (wp_mono h.finfile ?_ ?_))))
  swap
  · exact fun s' hs' => hs'.dead rfl rfl rfl
  intro _ s₁ ⟨h₁, hobj⟩
  refine wp_bind.2 (wp_onFail.2 (wp_putftag (fun os => ?_) fun os => ?_))
  · split
    · exact Good.enterNext hpos hS hnext (h₁.keep rfl rfl h₁.fits) hobj
    · exact Good.enterNext hpos hS hnext (h₁.keep rfl rfl h₁.fits) hobj
  · exact h₁.toBounded.dead rfl rfl rfl

/-! ## The other calls -/

/-- An object of the current file has room for recovery info of this length, where the file and the
stream are. -/
def HasRoom (s : Sys) (recoverybytes : Nat) : Prop :=
  recoverybytes + s.stream.recoveryheaderlen < s.stream.cur.ftag.objsize ∧
  (s.stream.cur.ftag.objno < s.stream.objno →
    s.stream.cur.ftag.offset + recoverybytes ≤ s.stream.cur.ftag.objsize) ∧
  (s.stream.cur.ftag.unfinalized →
    s.stream.offset + recoverybytes ≤ s.stream.cur.ftag.objsize)

/-- The recovery info that goes with another recovery path fits, where the file may still get it. -/
def PathFits (s : Sys) (path : List Char) : Prop :=
  s.stream.cur.ftag.bytes = 0 → HasRoom s (finfoLength { s.stream.finfo with path := path })

instance (s : Sys) (path : List Char) : Decidable (PathFits s path) :=
  inferInstanceAs (Decidable (_ → _ ∧ (_ → _) ∧ (_ → _)))

theorem Fits.repath (h : Fits S ftag stream objs) {recoverybytes : Nat}
    (hinfo : recoverybytes + stream.recoveryheaderlen < ftag.objsize)
    (hst : ftag.objno < stream.objno → ftag.offset + recoverybytes ≤ ftag.objsize)
    (hroom : ftag.unfinalized → stream.offset + recoverybytes ≤ ftag.objsize) :
    Fits S { ftag with recoverybytes := recoverybytes } stream objs := by
  rw [h.objsize] at hinfo hst hroom
  exact ⟨h.scheme, h.objsize, hinfo, h.objno_le, h.start_ge, hst, h.begun, h.offset_ge,
    h.offset_le, hroom, h.handle⟩

theorem Good.setrecoverypath (h : Good S s) {path : List Char} (hpath : PathFits s path) :
    wp (datastreamSetrecoverypath path) (fun _ => Good S) (Kept S) s := by
  refine wp_setrecoverypath (fun os => Good.kept (h.keep rfl rfl h.fits)) ?_
  intro hemp os ftags finfo hfinfo _
  obtain ⟨hinfo, hst, hroom⟩ := hpath hemp
  have hfits := h.fits.repath hinfo hst hroom
  rw [← hfinfo] at hfits
  exact h.retag rfl rfl (congrArg Streamfile.ftag (cur_retagged _ _))
    (hfits.move rfl rfl rfl rfl rfl)

theorem Good.resize (h : Good S s) (length : Nat) (hS : S < SizeT.modulus) :
    wp (resize length) (fun _ => Good S) (Kept S) s := by
  have hroomy := h.fits.roomy hS
  refine wp_resize (fun wrapped hw => ?_) (fun os wrapped stream hw => ?_) ?_
  · exact Good.kept (h.keep rfl (hw hroomy) h.fits)
  · exact h.toBounded.dead rfl (hw hroomy) rfl
  · intro os ftags wrapped independentobjs dataperobj hw _
    refine h.retag rfl (hw hroomy) (congrArg Streamfile.ftag (cur_retagged _ _)) ?_
    refine Fits.retag (h.fits.move rfl rfl rfl rfl rfl) rfl rfl rfl rfl ?_
    exact (sized_unfinalized s.stream.cur.ftag).symm.trans

theorem Good.extend (h : Good S s) (length : Nat) (hS : S < SizeT.modulus) :
    wp (datastreamExtend length) (fun _ => Good S) (Kept S) s := by
  refine wp_bind.2 (wp_get.2 (wp_bind.2 (wp_check.2 ⟨fun _ => ?_, fun _ => h.kept⟩)))
  refine wp_bind.2 (wp_check.2 ⟨fun hunfin => ?_, fun _ => h.kept⟩)
  refine wp_bind.2 (wp_check.2 ⟨fun _ => ?_, fun _ => h.kept⟩)
  refine wp_bind.2 (wp_check.2 ⟨fun _ => ?_, fun _ => h.kept⟩)
  refine wp_bind.2 (wp_bind.2 (wp_get.2 (wp_ite.2 ⟨fun _ => wp_bind.2 ?_, fun _ => wp_pure.2 ?_⟩)))
  · refine wp_mono (h.fits.leaveObject hunfin h.toBounded rfl rfl rfl rfl) ?_ fun _ h => h
    intro _ s' ⟨hs', hoff⟩
    refine wp_bind.2 (wp_get.2 (wp_modifyFtag.2 (Good.resize ?_ length hS)))
    -- the file starts where the stream is, at the start of an object
    have hinfo := hs'.fits.info_lt
    refine hs'.retag rfl rfl (congrArg Streamfile.ftag (Stream.cur_setFile _ _)) ?_
    refine ⟨hs'.fits.scheme, hs'.fits.objsize, hinfo, le_rfl, hoff.ge, fun _ => ?_,
      fun _ => le_rfl, hs'.fits.offset_ge, hs'.fits.offset_le, fun _ => ?_, hs'.fits.handle⟩
    · change s'.stream.offset + s'.stream.cur.ftag.recoverybytes ≤ S
      omega
    · change s'.stream.offset + s'.stream.cur.ftag.recoverybytes ≤ S
      omega
  · exact h.resize length hS

/-- The stream goes away; its objects stay as they are. -/
theorem Bounded.freestream (h : Bounded S s.objs s.wrapped) : Kept S (freestream s).2 :=
  h.dead rfl rfl rfl

theorem Good.release (h : Good S s) : wp datastreamRelease (fun _ => Kept S) (Kept S) s := by
  refine wp_bind.2 (wp_get.2 (wp_bind.2 (wp_onFail.2 (wp_check.2 ⟨fun _ => ?_, ?_⟩))))
  swap
  · exact fun _ => h.toBounded.freestream
  refine wp_bind.2 (wp_onFail.2 (wp_mono h.finfile ?_ fun s' hs' => hs'.freestream))
  intro _ s' ⟨hs', _⟩
  have hb := hs'.toBounded
  refine wp_bind.2 (wp_modifyFtag.2 (wp_bind.2 (wp_onFail.2 (wp_bind.2 ?_))))
  have hput : ∀ os closed stream, wp (putftag s.stream.curfile >>= fun _ => call)
      (fun _ => wp freestream (fun _ => Kept S) (Kept S)) (fun s => Kept S (freestream s).2)
      { s' with outcomes := os, closed := closed, stream := stream } := by
    intro os closed stream
    have hfree : ∀ s'', s''.objs = s'.objs → s''.wrapped = s'.wrapped →
        Kept S (freestream s'').2 := fun s'' hobjs hwrap => hb.dead hobjs hwrap rfl
    refine wp_bind.2 (wp_putftag (fun os => ?_) fun os => hfree _ rfl rfl)
    split
    · exact wp_call (fun os => wp_freestream.2 (hfree _ rfl rfl)) fun os => hfree _ rfl rfl
    · exact wp_call (fun os => wp_freestream.2 (hfree _ rfl rfl)) fun os => hfree _ rfl rfl
  refine wp_closeCurrentObj (fun _ => hput _ _ _) (fun _ os _ => hput _ _ _) fun os closed _ => ?_
  exact hb.dead rfl rfl rfl

theorem Good.close (h : Good S s) : wp datastreamClose (fun _ => Kept S) (Kept S) s := by
  refine wp_bind.2 (wp_get.2 (wp_bind.2 (wp_onFail.2 (wp_check.2 ⟨fun _ => ?_, ?_⟩))))
  swap
  · exact fun _ => h.toBounded.freestream
  refine wp_bind.2 (wp_onFail.2 (wp_mono h.finfile ?_ fun s' hs' => hs'.freestream))
  intro _ s' ⟨hs', _⟩
  have hb := hs'.toBounded
  have hcomp : ∀ os closed stream, wp (completeFiles (s.stream.curfile + 1) >>= fun all => do
      (Op.check all).onFail freestream
      freestream) (fun _ => Kept S) (Kept S)
      { s' with outcomes := os, closed := closed, stream := stream } := by
    intro os closed stream
    refine wp_bind.2 (wp_completeFiles fun all os files ftags _ _ => wp_bind.2 (wp_onFail.2 ?_))
    refine wp_check.2 ⟨fun _ => wp_freestream.2 (hb.dead rfl rfl rfl), fun _ => ?_⟩
    exact hb.dead rfl rfl rfl
  refine wp_bind.2 (wp_modifyFtag.2 (wp_bind.2 (wp_onFail.2 ?_)))
  refine wp_closeCurrentObj (fun _ => hcomp _ _ _) (fun _ os _ => hcomp _ _ _) ?_
  exact fun os closed _ => hb.dead rfl rfl rfl

theorem Good.perform (hpos : 0 < S) (hS : S < SizeT.modulus) (h : Good S s) {c : Call}
    (hc : ∀ path, c = .setrecoverypath path → PathFits s path) : Kept S (perform c s).2 := by
  have hkept : ∀ {α : Type} {m : Op Sys α}, wp m (fun _ => Good S) (Kept S) s →
      wp m (fun _ => Kept S) (Kept S) s := fun hm =>
    wp_mono hm (fun _ _ h => h.kept) fun _ h => h
  apply wp_snd
  cases c with
  | create path stat =>
    refine wp_bind.2 (wp_get.2 (wp_bind.2 (wp_check.2 ⟨fun _ => hkept ?_, fun _ => h.kept⟩)))
    exact h.nextFile hpos hS (createNewFile_spec path stat)
  | repack path stat =>
    refine wp_bind.2 (wp_get.2 (wp_bind.2 (wp_check.2 ⟨fun _ => hkept ?_, fun _ => h.kept⟩)))
    exact h.nextFile hpos hS (openRepackFile_spec path stat)
  | write buf =>
    refine wp_bind.2 (wp_mono (hkept ((writeRules hS).datastreamWrite buf h)) ?_ fun _ h => h)
    exact fun _ _ h => wp_pure.2 h
  | seek fuel offset whence =>
    refine wp_bind.2 (wp_mono ((writeRules hS).datastreamSeek fuel offset whence h) ?_ fun _ h => h)
    exact fun _ _ h => wp_pure.2 h
  | setrecoverypath path => exact hkept (h.setrecoverypath (hc path rfl))
  | extend length => exact hkept (h.extend length hS)
  | truncate length => exact wp_fail.2 h.kept
  | release => exact h.release
  | close => exact h.close

theorem genstream_good (hpos : 0 < S) (hS : S < SizeT.modulus) {scheme : Scheme} (hsch : scheme.objsize = S)
    (type : StreamType) (ctag streamid : List Char) (outcomes : List (Option Nat)) (path : List Char)
    (stat : FileStat) : Kept S (genstream path stat (fresh type scheme ctag streamid outcomes)).2 := by
  generalize hs : fresh type scheme ctag streamid outcomes = s
  have hobjs : ∀ i, size (s.objs i) ≤ S := by
    rw [← hs]
    exact fun _ => Nat.zero_le _
  have hwrap : s.wrapped = false := by rw [← hs, fresh]
  have hsize : s.stream.scheme.objsize = S := by rw [← hs, ← hsch, fresh]
  have hoff : s.stream.offset = s.stream.recoveryheaderlen := by rw [← hs, fresh]
  have hnone : s.stream.datahandle = none := by rw [← hs, fresh]
  have hin : s.stream.recoveryheaderlen < s.stream.scheme.objsize →
      s.stream.offset ≤ s.stream.scheme.objsize := by omega
  have hnext : ∀ next : Op Sys Unit, wp next (fun _ => Enters s) (Refuses s) s →
      wp next (fun _ => Kept S) (fun s' => Kept S (freestream s').2) s := by
    intro next hnext
    refine wp_mono hnext ?_ ?_
    · intro _ s' ⟨os, ftags, wrapped, ftag, finfo, hplcd, hw, _, hs'⟩
      subst hs'
      refine Good.kept ⟨⟨hobjs, (hw hin).trans hwrap⟩, ?_⟩
      simp only [Stream.cur_enter]
      have hfits : Fits S ftag _ s.objs :=
        Fits.placed hpos hS hplcd hsize hoff.ge (fun _ => by omega) finfo true
      exact hfits.hold fun i hi => absurd (hnone.symm.trans hi) (by simp)
    · intro s' ⟨os, ftags, wrapped, finfo, hw, _, hs'⟩
      subst hs'
      exact Bounded.dead ⟨hobjs, (hw hin).trans hwrap⟩ rfl rfl rfl
  refine wp_snd (wp_bind.2 (wp_get.2 (wp_onFail.2 (wp_ite.2 ⟨fun _ => ?_, fun _ => ?_⟩))))
  · exact hnext _ (openRepackFile_spec path stat s)
  · exact hnext _ (createNewFile_spec path stat s)

/-- The calls that keep the objects of a stream within their size: all, save that a file only gets a
recovery path that leaves room where it was placed. -/
def PathsFit (s : Sys) : Call → Prop
  | .setrecoverypath path => PathFits s path
  | _ => True

/-- The header, data and recovery info of an object stay within the object size, each object has room
for data, and the room left in an object never wraps around, in every run in which no file is given a
recovery path that does not fit where it was placed. -/
theorem objects_within_objsize {type : StreamType} {scheme : Scheme} {ctag streamid : List Char}
    {s : Sys} (hpos : 0 < scheme.objsize) (hS : scheme.objsize < SizeT.modulus)
    (hs : Reached type scheme ctag streamid PathsFit s) :
    (∀ i, (content (s.objs i)).length ≤ scheme.objsize) ∧ s.wrapped = false ∧
      (s.live = true → 0 < dataPerObj s.stream) := by
  have hkept : Kept scheme.objsize s := by
    refine hs.invariant (genstream_good hpos hS rfl type ctag streamid) ?_
    intro s c h hlive hc
    refine (h.2 hlive).perform hpos hS fun path hpath => ?_
    subst hpath
    exact hc
  refine ⟨hkept.1.size_le, hkept.1.wrapped, fun hlive => ?_⟩
  have hfits := (hkept.2 hlive).fits
  have hinfo := hfits.info_lt
  rw [(hfits.roomy hS).dataPerObj_eq, hfits.objsize]
  omega

/-- A file gets another short recovery path, and data. -/
def repathed : Sys :=
  (perform (.write ['x', 'y']) (perform (.setrecoverypath ['b']) (sampleStream 150 [])).2).2

theorem repathed_within_objsize :
    (∀ i, (content (repathed.objs i)).length ≤ 150) ∧ repathed.wrapped = false ∧
      (repathed.live = true → 0 < dataPerObj repathed.stream) := by
  have hstart := sampleStream_reached 150 [] PathsFit
  have hpath : PathFits (sampleStream 150 []) ['b'] := by decide +kernel
  exact objects_within_objsize (by decide) (by decide)
    ((hstart.perform (.setrecoverypath ['b']) (by decide +kernel) hpath).perform
      (.write ['x', 'y']) (by decide +kernel) trivial)

def overlong : Sys :=
  (perform .close
    (perform (.setrecoverypath "a/longer/path".toList) (sampleStream 150 [])).2).2

/-- Its recovery info does not fit the object any more, and is written all the same. -/
theorem overlong_outgrows :
    Reached .create (sampleScheme 150) ['c'] ['s'] (fun _ _ => True) overlong ∧
      (content (overlong.objs 0)).length = 158 ∧
      ¬ ((∀ i, (content (overlong.objs i)).length ≤ (sampleScheme 150).objsize) ∧
        overlong.wrapped = false ∧ (overlong.live = true → 0 < dataPerObj overlong.stream)) := by
  have hstart := sampleStream_reached 150 [] fun _ _ => True
  have hlen : (content (overlong.objs 0)).length = 158 := by decide +kernel
  refine ⟨(hstart.perform (.setrecoverypath "a/longer/path".toList) (by decide +kernel)
    trivial).perform .close (by decide +kernel) trivial, hlen, fun h => ?_⟩
  have hle : (content (overlong.objs 0)).length ≤ 150 := h.1 0
  omega

end Sys

end Marfs.Datastream
