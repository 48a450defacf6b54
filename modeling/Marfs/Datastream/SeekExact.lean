import Marfs.Datastream.ReaderSpec

/-!
# Seek positions

The position of a stream is a number of bytes from the start of its file (`Stream.At`), whichever way it
is written: a position at the boundary of two objects is at the end of one or at the start of the next.
A seek goes to the number it is for, and a read moves on by the number of bytes it returns.
-/

namespace Marfs.Datastream

open Machine Recovery Tagging Sys
open Machine.Op

structure Stream.Framed (stream : Stream) : Prop where
  header : 0 < stream.recoveryheaderlen
  start : stream.recoveryheaderlen ≤ stream.cur.ftag.offset
  offset : stream.cur.ftag.offset < offMax
  room : 0 < stream.dataperobj
  inside : stream.minoffset ≤ stream.dataperobj

instance (stream : Stream) : Decidable stream.Framed :=
  decidable_of_iff (0 < stream.recoveryheaderlen ∧
      stream.recoveryheaderlen ≤ stream.cur.ftag.offset ∧ stream.cur.ftag.offset < offMax ∧
      0 < stream.dataperobj ∧ stream.minoffset ≤ stream.dataperobj)
    ⟨fun ⟨header, start, offset, room, inside⟩ => ⟨header, start, offset, room, inside⟩,
      fun h => ⟨h.header, h.start, h.offset, h.room, h.inside⟩⟩

structure Stream.At (stream : Stream) (p : Nat) : Prop where
  object : stream.cur.ftag.objno ≤ stream.objno
  header : stream.recoveryheaderlen ≤ stream.offset
  inside : stream.offset ≤ stream.recoveryheaderlen + stream.dataperobj
  position : p + stream.minoffset = (stream.objno - stream.cur.ftag.objno) * stream.dataperobj +
    (stream.offset - stream.recoveryheaderlen) + stream.excessoffset

structure Stream.Alike (stream stream' : Stream) : Prop where
  type : stream'.type = stream.type
  file : stream'.cur.ftag = stream.cur.ftag
  header : stream'.recoveryheaderlen = stream.recoveryheaderlen
  filesize : stream'.filesize = stream.filesize

namespace Stream

variable {stream stream' stream'' : Stream} {p offset : Nat}

namespace Alike

theorem refl (stream : Stream) : stream.Alike stream := ⟨rfl, rfl, rfl, rfl⟩

theorem trans (h : stream.Alike stream') (h' : stream'.Alike stream'') : stream.Alike stream'' :=
  ⟨h'.type.trans h.type, h'.file.trans h.file, h'.header.trans h.header,
    h'.filesize.trans h.filesize⟩

theorem dataperobj (h : stream.Alike stream') : stream'.dataperobj = stream.dataperobj := by
  unfold Stream.dataperobj
  rw [h.file, h.header]

theorem minoffset (h : stream.Alike stream') : stream'.minoffset = stream.minoffset := by
  unfold Stream.minoffset
  rw [h.file, h.header]

theorem positionOf (h : stream.Alike stream') (offset : Nat) :
    stream'.positionOf offset = stream.positionOf offset := by
  unfold Stream.positionOf Stream.position
  rw [h.dataperobj, h.minoffset, h.file, h.header, h.filesize]

theorem reaches (h : stream.Alike stream') (offset : Nat) :
    stream'.Reaches offset ↔ stream.Reaches offset := by
  unfold Stream.Reaches
  rw [h.filesize, h.type]

theorem framed (h : stream.Alike stream') (hfr : stream.Framed) : stream'.Framed where
  header := h.header ▸ hfr.header
  start := by
    rw [h.header, h.file]
    exact hfr.start
  offset := by
    rw [h.file]
    exact hfr.offset
  room := h.dataperobj ▸ hfr.room
  inside := by
    rw [h.minoffset, h.dataperobj]
    exact hfr.inside

end Alike

theorem Framed.minoffset_eq (h : stream.Framed) :
    stream.minoffset = stream.cur.ftag.offset - stream.recoveryheaderlen := by
  have hoff := h.offset
  have hmax : offMax < SizeT.modulus := by decide
  exact SizeT.sub_of_le h.start (by omega)

theorem Framed.at_start (h : stream.Framed) (hobj : stream.objno = stream.cur.ftag.objno)
    (hoff : stream.offset = stream.cur.ftag.offset) (hexc : stream.excessoffset = 0) : stream.At 0 := by
  have hmin := h.minoffset_eq
  have hst := h.start
  have hin := h.inside
  refine ⟨hobj.ge, hoff ▸ hst, ?_, ?_⟩
  · rw [hoff]
    omega
  · rw [hobj, hoff, hexc, Nat.sub_self, Nat.zero_mul]
    omega

theorem left_of_inside (hhdr : stream.recoveryheaderlen ≤ stream.offset)
    (hin : stream.offset ≤ stream.recoveryheaderlen + stream.dataperobj) :
    SizeT.sub stream.offset stream.recoveryheaderlen = stream.offset - stream.recoveryheaderlen ∧
    SizeT.sub stream.dataperobj (SizeT.sub stream.offset stream.recoveryheaderlen) =
      stream.recoveryheaderlen + stream.dataperobj - stream.offset := by
  have hdata := dataperobj_lt stream
  have hused := SizeT.sub_of_diff_lt hhdr (by omega)
  refine ⟨hused, ?_⟩
  rw [hused, SizeT.sub_of_le (by omega) hdata]
  omega

theorem At.left (h : stream.At p) :
    SizeT.sub stream.offset stream.recoveryheaderlen = stream.offset - stream.recoveryheaderlen ∧
    SizeT.sub stream.dataperobj (SizeT.sub stream.offset stream.recoveryheaderlen) =
      stream.recoveryheaderlen + stream.dataperobj - stream.offset :=
  left_of_inside h.header h.inside

theorem At.target_cur (h : stream.At p) (hfr : stream.Framed) (offset : Nat) :
    stream.target offset .cur = SizeT.wrap (offset + p) := by
  obtain ⟨hused, -⟩ := h.left
  have hhdr := h.header
  have hin := h.inside
  have hposition := h.position
  have hpos := hfr.header
  have hmin := hfr.inside
  have hdata := dataperobj_lt stream
  have hne : stream.offset ≠ 0 := by omega
  have hdistance : stream.distance + stream.excessoffset = p ∨
      stream.distance + stream.excessoffset = p + SizeT.modulus := by
    unfold Stream.distance
    simp only [if_pos hne, hused]
    by_cases hbeyond : stream.objno > stream.cur.ftag.objno
    · rw [if_pos hbeyond, SizeT.sub_of_le hmin hdata]
      obtain ⟨k, hk⟩ : ∃ k, stream.objno - stream.cur.ftag.objno = k + 1 :=
        ⟨stream.objno - stream.cur.ftag.objno - 1, by omega⟩
      have hk' : stream.objno - (stream.cur.ftag.objno + 1) = k := by omega
      rw [hk, Nat.add_mul] at hposition
      rw [hk']
      omega
    · rw [if_neg hbeyond]
      have hfst : stream.objno - stream.cur.ftag.objno = 0 := by omega
      rw [hfst, Nat.zero_mul] at hposition
      by_cases hle : stream.minoffset ≤ stream.offset - stream.recoveryheaderlen
      · rw [SizeT.sub_of_diff_lt hle (by omega)]
        omega
      · -- an excess makes up for what the offset lacks
        right
        have hmod : stream.minoffset % SizeT.modulus = stream.minoffset :=
          Nat.mod_eq_of_lt (by omega)
        rw [SizeT.sub, hmod, Nat.mod_eq_of_lt (by omega)]
        omega
  change SizeT.wrap (offset + stream.distance + stream.excessoffset) = _
  rw [Nat.add_assoc]
  rcases hdistance with hdistance | hdistance
  · rw [hdistance]
  · rw [hdistance, ← Nat.add_assoc]
    exact Nat.add_mod_right _ _

theorem Framed.at_position (h : stream.Framed) (halk : stream.Alike stream')
    (hobj : stream'.objno = (stream.positionOf offset).objno)
    (hoff : stream'.offset = (stream.positionOf offset).offset)
    (hexc : stream'.excessoffset = (stream.positionOf offset).excessoffset) : stream'.At offset := by
  have hroom := h.room
  obtain ⟨inner, excess, hinner⟩ : ∃ inner excess, inner + excess = offset ∧
      (if offset > stream.cur.ftag.availbytes then stream.cur.ftag.availbytes else offset) = inner ∧
      (if offset > stream.cur.ftag.availbytes then offset - stream.cur.ftag.availbytes else 0) =
        excess := by
    refine ⟨_, _, ?_, rfl, rfl⟩
    split <;> omega
  obtain ⟨hsum, hin, hex⟩ := hinner
  have hdiv := Nat.div_add_mod (inner + stream.minoffset) stream.dataperobj
  have hmod := Nat.mod_lt (inner + stream.minoffset) hroom
  rw [Nat.mul_comm] at hdiv
  simp only [positionOf, position, hin, hex] at hobj hoff hexc
  by_cases hcrosses : inner + stream.minoffset ≥ stream.dataperobj
  · simp only [hcrosses, decide_true, if_true] at hobj hoff
    refine ⟨?_, ?_, ?_, ?_⟩
    · rw [halk.file, hobj]
      exact Nat.le_add_right _ _
    · rw [halk.header, hoff]
      exact Nat.le_add_right _ _
    · rw [halk.header, halk.dataperobj, hoff]
      omega
    · rw [halk.minoffset, halk.dataperobj, halk.file, halk.header, hobj, hoff, hexc,
        Nat.add_sub_cancel_left, Nat.add_sub_cancel_left]
      omega
  · simp only [hcrosses, decide_false, Bool.false_eq_true, if_false] at hobj hoff
    refine ⟨?_, ?_, ?_, ?_⟩
    · rw [halk.file, hobj]
    · rw [halk.header, hoff]
      exact Nat.le_add_right _ _
    · rw [halk.header, halk.dataperobj, hoff]
      omega
    · rw [halk.minoffset, halk.file, halk.header, hobj, hoff, hexc, Nat.sub_self,
        Nat.zero_mul, Nat.add_sub_cancel_left]
      omega

theorem At.advance (h : stream.At p) {n : Nat}
    (hn : n ≤ stream.recoveryheaderlen + stream.dataperobj - stream.offset) :
    ({ stream with offset := stream.offset + n } : Stream).At (p + n) := by
  have hhdr := h.header
  have hin := h.inside
  have hpos := h.position
  refine ⟨h.object, hhdr.trans (Nat.le_add_right _ _), ?_, ?_⟩
  · change stream.offset + n ≤ stream.recoveryheaderlen + stream.dataperobj
    omega
  · change p + n + stream.minoffset = (stream.objno - stream.cur.ftag.objno) * stream.dataperobj +
      (stream.offset + n - stream.recoveryheaderlen) + stream.excessoffset
    omega

theorem At.next (h : stream.At p) (hfull : stream.recoveryheaderlen + stream.dataperobj - stream.offset = 0)
    (handle : Option Nat) : (Reader.nextStream { stream with datahandle := handle }).At p := by
  have hobj := h.object
  have hin := h.inside
  have hpos := h.position
  refine ⟨hobj.trans (Nat.le_succ _), le_rfl, Nat.le_add_right _ _, ?_⟩
  change p + stream.minoffset = (stream.objno + 1 - stream.cur.ftag.objno) * stream.dataperobj +
    (stream.recoveryheaderlen - stream.recoveryheaderlen) + stream.excessoffset
  obtain ⟨k, hk⟩ := Nat.exists_eq_add_of_le hobj
  have hk' : stream.objno + 1 - stream.cur.ftag.objno = k + 1 := by omega
  have hk'' : stream.objno - stream.cur.ftag.objno = k := by omega
  rw [hk'] 
  rw [hk''] at hpos
  rw [Nat.add_mul]
  omega

theorem At.exceed (h : stream.At p) (n : Nat) :
    ({ stream with excessoffset := stream.excessoffset + n } : Stream).At (p + n) := by
  have hpos := h.position
  refine ⟨h.object, h.header, h.inside, ?_⟩
  change p + n + stream.minoffset = (stream.objno - stream.cur.ftag.objno) * stream.dataperobj +
    (stream.offset - stream.recoveryheaderlen) + (stream.excessoffset + n)
  omega

end Stream

namespace Reader

variable {r r' : Reader} {stream : Stream} {p : Nat}

/-! ## Seeking -/

/-- A stream that a seek has moved to a position, with the data handle moved along. -/
structure Landed (streampos : Position) (r r' : Reader) : Prop where
  alike : r.sys.stream.Alike r'.sys.stream
  objno : r'.sys.stream.objno = streampos.objno
  offset : r'.sys.stream.offset = streampos.offset
  excess : r'.sys.stream.excessoffset = streampos.excessoffset
  chunk : r.sys.stream.type ≠ .edit ∨ streampos.offset = r.sys.stream.recoveryheaderlen
  object : ∀ h, r'.sys.stream.datahandle = some h → streampos.offset ≤ (r'.object h).length

theorem putfinfo_alike (htype : r.sys.stream.type = .edit) :
    wp putfinfo (fun _ r' => r.sys.stream.Alike r'.sys.stream) (fun _ => True) r := by
  refine wp_bind.2 (wp_gettargets.2 ⟨fun _ => ?_, fun _ => trivial⟩)
  refine wp_bind.2 (wp_get.2 (wp_bind.2 (wp_onSys.2 (wp_modifyStream.2 (wp_bind.2 ?_)))))
  refine wp_check.2 ⟨fun _ => ?_, fun _ => trivial⟩
  refine wp_bind.2 (wp_onSys.2 (wp_neWrite (fun h os n _ _ => ?_) fun _ => trivial))
  refine wp_bind.2 (wp_check.2 ⟨fun _ => ?_, fun _ => trivial⟩)
  refine wp_onSys.2 (wp_modifyStream.2 ⟨rfl, rfl, rfl, ?_⟩)
  simp only [Stream.filesize, Sys.append, Stream.setFinfo, htype]
  rfl

theorem leaveObject_alike :
    wp leaveObject (fun _ r' => r.sys.stream.Alike r'.sys.stream) (fun _ => True) r := by
  have hclose : ∀ r', r.sys.stream.Alike r'.sys.stream →
      wp (onSys (closeCurrentObj.onFail freestream))
        (fun _ r' => r.sys.stream.Alike r'.sys.stream) (fun _ => True) r' := fun r' h =>
    wp_closeOrFree (fun _ _ => h.trans ⟨rfl, rfl, rfl, rfl⟩) fun _ _ => trivial
  refine wp_bind.2 (wp_get.2 (wp_ite.2 ⟨fun htype => wp_bind.2 ?_, fun _ => ?_⟩))
  · refine wp_bind.2 (wp_onFail.2 (wp_mono (putfinfo_alike htype) ?_ fun _ _ => trivial))
    intro _ r' h
    refine wp_onSys.2 (wp_modifyStream.2 (hclose _ (h.trans ⟨rfl, rfl, rfl, ?_⟩)))
    simp only [Stream.filesize, Stream.setFinfo, h.type, htype]
    rfl
  · exact hclose r (Stream.Alike.refl _)

theorem seekHandle_spec (offset : Nat) :
    wp (seekHandle offset) (fun _ r' => r'.sys.stream = r.sys.stream ∧
      ∀ h, r'.sys.stream.datahandle = some h → offset ≤ (r'.object h).length) (fun _ => True) r := by
  refine wp_bind.2 (wp_get.2 (wp_ite.2 ⟨fun _ => wp_onFail.2 ?_, fun hnone => wp_pure.2 ?_⟩))
  · refine wp_seekTo (fun h os hhdl hle => ⟨rfl, fun h' hh' => ?_⟩) fun _ _ => trivial
    obtain rfl := Option.some.inj (hhdl.symm.trans hh')
    exact hle
  · refine ⟨rfl, fun h hh => absurd ?_ hnone⟩
    rw [hh]
    rfl

theorem seekPosition_spec (streampos : Position) :
    wp (seekPosition streampos) (fun offset r' => offset = streampos.totaloffset ∧
      Landed streampos r r') (fun _ => True) r := by
  refine wp_bind.2 (wp_get.2 (wp_bind.2 (wp_check.2 ⟨fun hchunk => ?_, fun _ => trivial⟩)))
  have hchunk : r.sys.stream.type ≠ .edit ∨
      streampos.offset = r.sys.stream.recoveryheaderlen := by simpa using hchunk
  have hmove : ∀ r', r.sys.stream.Alike r'.sys.stream →
      wp (do
        seekHandle streampos.offset
        onSys (modifyStream (moveTo streampos))
        pure streampos.totaloffset : Op Reader Nat) (fun offset r' =>
          offset = streampos.totaloffset ∧ Landed streampos r r') (fun _ => True) r' := by
    intro r' h
    refine wp_bind.2 (wp_mono (seekHandle_spec streampos.offset) ?_ fun _ _ => trivial)
    rintro _ r'' ⟨hstr, hobj⟩
    refine wp_bind.2 (wp_onSys.2 (wp_modifyStream.2 (wp_pure.2 ⟨rfl, ?_, rfl, rfl, rfl, hchunk,
      hobj⟩)))
    rw [hstr]
    exact h.trans ⟨rfl, rfl, rfl, rfl⟩
  refine wp_ite.2 ⟨fun _ => wp_bind.2 ?_, fun _ => hmove r (Stream.Alike.refl _)⟩
  exact wp_mono leaveObject_alike (fun _ r' h => hmove r' h) fun _ _ => trivial

theorem datastreamSeek_spec (offset : Nat) (whence : Whence) :
    wp (datastreamSeek offset whence) (fun x r' => x = r.sys.stream.target offset whence ∧
      r.sys.stream.Reaches x ∧ Landed (r.sys.stream.positionOf x) r r') (fun _ => True) r := by
  refine wp_bind.2 (wp_gettargets.2 ⟨fun hreach => ?_, fun _ => trivial⟩)
  refine wp_bind.2 (wp_get.2 (wp_bind.2 (wp_check.2 ⟨fun _ => ?_, fun _ => trivial⟩)))
  refine wp_mono (seekPosition_spec _) ?_ fun _ _ => trivial
  rintro x r' ⟨rfl, h⟩
  exact ⟨rfl, hreach, h⟩

theorem datastreamSeek_congr {offset offset' : Nat} {whence whence' : Whence}
    (h : r.sys.stream.target offset whence = r.sys.stream.target offset' whence') :
    datastreamSeek offset whence r = datastreamSeek offset' whence' r := by
  have htargets := gettargets_congr h
  rw [gettargets_eq, gettargets_eq] at htargets
  simp only [datastreamSeek, bind, gettargets_eq]
  rw [htargets]

theorem seekHandle_works {offset : Nat} (hworks : r.HandleWorks)
    (hobj : ∀ h, r.sys.stream.datahandle = some h → offset ≤ (r.object h).length) :
    wp (seekHandle offset) (fun _ _ => True) (fun _ => False) r := by
  refine wp_bind.2 (wp_get.2 (wp_ite.2 ⟨fun hsome => wp_onFail.2 ?_, fun _ => wp_pure.2 trivial⟩))
  obtain ⟨h, hh⟩ := Option.isSome_iff_exists.1 hsome
  have hcall : r.sys.outcomes.head?.join = none :=
    hworks.resolve_left fun hnone => absurd (hh.symm.trans hnone) (by simp)
  exact seekTo_works hh hcall (hobj h hh) fun _ => trivial

theorem Landed.stays {streampos : Position} (h : Landed streampos r r') (hworks : r'.HandleWorks) :
    wp (seekPosition streampos) (fun offset _ => offset = streampos.totaloffset) (fun _ => False)
      r' := by
  refine wp_bind.2 (wp_get.2 (wp_bind.2 (wp_check.2 ⟨fun _ => ?_, fun hno => ?_⟩)))
  · refine wp_ite.2 ⟨fun hleav => ?_, fun _ => ?_⟩
    · rw [h.objno] at hleav
      simp at hleav
    · refine wp_bind.2 (wp_mono (seekHandle_works hworks h.object) ?_ fun _ h => h)
      exact fun _ _ _ => wp_bind.2 (wp_onSys.2 (wp_modifyStream.2 (wp_pure.2 rfl)))
  · have hchunk := h.chunk
    rw [h.alike.type, h.alike.header] at hno
    simp only [ne_eq, Bool.or_eq_false_iff, decide_eq_false_iff_not, not_not] at hno
    exact hchunk.elim (fun hne => hne hno.1) hno.2

theorem Landed.again {x : Nat} (h : Landed (r.sys.stream.positionOf x) r r')
    (htype : r.sys.stream.type = .read ∨ r.sys.stream.type = .edit) (hreach : r.sys.stream.Reaches x)
    (hworks : r'.HandleWorks) : wp (datastreamSeek x .set) (fun y _ => y = x) (fun _ => False) r' := by
  have htype' : (decide (r'.sys.stream.type = .read) || decide (r'.sys.stream.type = .edit)) = true := by
    rw [h.alike.type]
    simpa using htype
  refine wp_bind.2 (wp_gettargets.2 ⟨fun _ => ?_, fun hnot => hnot ((h.alike.reaches x).2 hreach)⟩)
  refine wp_bind.2 (wp_get.2 (wp_bind.2 (wp_check.2 ⟨fun _ => ?_, fun hno => ?_⟩)))
  · change wp (seekPosition (r'.sys.stream.positionOf x)) _ _ r'
    rw [h.alike.positionOf x]
    exact h.stays hworks
  · rw [htype'] at hno
    cases hno

/-! ## Reading -/

def left (r : Reader) : Nat :=
  r.sys.stream.recoveryheaderlen + r.sys.stream.dataperobj - r.sys.stream.offset

/-- What an invariant of a reader has to stand for `datastream_read` to keep it: `I n` holds once `n`
bytes have been read, and `E` where a call failed. -/
structure ReadRules (dataperobj : Nat) (I : Nat → Reader → Prop) (E : Reader → Prop) : Prop where
  weaken : ∀ r, I 0 r → E r
  find : ∀ n r, I n r →
    wp (findData dataperobj) (fun toread r' => I n r' ∧ toread = left r') E r
  piece : ∀ n r toread, I n r → toread ≤ left r → wp (readPiece toread) (fun bytes r' =>
    bytes.length ≤ toread ∧ I (n + bytes.length) r') (fun _ => False) r

theorem ReadRules.loop {dataperobj : Nat} {I : Nat → Reader → Prop} {E : Reader → Prop}
    (rules : ReadRules dataperobj I E) (fuel : Nat) {count : Nat} {buf : List Char} {r : Reader}
    (h : I buf.length r) :
    wp (readLoop dataperobj fuel count buf) (fun result r' =>
      result.1.length + result.2 = buf.length + count ∧ I result.1.length r') E r := by
  induction fuel generalizing count buf r with
  | zero => exact wp_pure.2 ⟨rfl, h⟩
  | succ fuel ih =>
    refine wp_ite.2 ⟨fun _ => wp_pure.2 ⟨rfl, h⟩, fun _ => ?_⟩
    refine wp_bind.2 (wp_mono (rules.find _ r h) ?_ fun _ h => h)
    rintro toread r₁ ⟨h₁, rfl⟩
    refine wp_bind.2 (wp_mono (rules.piece _ r₁ _ h₁ (Nat.min_le_left _ count)) ?_ fun _ h => h.elim)
    rintro bytes r₂ ⟨hlen, h₂⟩
    refine wp_ite.2 ⟨fun hemp => ?_, fun _ => ?_⟩
    · rw [hemp] at h₂
      refine wp_bind.2 (wp_check.2 ⟨fun _ => wp_pure.2 ⟨rfl, h₂⟩, fun hnone => ?_⟩)
      have hbuf : buf = [] := by simpa using hnone
      rw [hbuf] at h₂
      exact rules.weaken _ h₂
    · have hcnt := hlen.trans (Nat.min_le_right _ _)
      rw [← List.length_append] at h₂
      refine wp_mono (ih h₂) ?_ fun _ h => h
      rintro result r₃ ⟨hleft, h₃⟩
      refine ⟨?_, h₃⟩
      rw [List.length_append] at hleft
      omega

/-- The file is being read, up to byte `p`. -/
structure Reading (stream : Stream) (p : Nat) (stream' : Stream) : Prop where
  alike : stream.Alike stream'
  position : stream'.At p

theorem Reading.steady : Steady (Reading stream p) := fun _ _ h =>
  ⟨h.alike.trans ⟨rfl, rfl, rfl, rfl⟩, h.position.object, h.position.header, h.position.inside,
    h.position.position⟩

theorem Reading.advance {stream' : Stream} (h : Reading stream p stream') {n : Nat}
    (hn : n ≤ stream'.recoveryheaderlen + stream'.dataperobj - stream'.offset) :
    Reading stream (p + n) { stream' with offset := stream'.offset + n } :=
  ⟨h.alike.trans ⟨rfl, rfl, rfl, rfl⟩, h.position.advance hn⟩

theorem Reading.next {stream' : Stream} (h : Reading stream p stream')
    (hfull : stream'.recoveryheaderlen + stream'.dataperobj - stream'.offset = 0) (handle : Option Nat) :
    Reading stream p (nextStream { stream' with datahandle := handle }) :=
  ⟨h.alike.trans ⟨rfl, rfl, rfl, rfl⟩, h.position.next hfull handle⟩

theorem left_next (r : Reader) : r.sys.stream.dataperobj = r.sys.stream.recoveryheaderlen +
    r.sys.stream.dataperobj - r.sys.stream.recoveryheaderlen := (Nat.add_sub_cancel_left _ _).symm

theorem Reading.find {Q : Nat → Reader → Prop} {E : Reader → Prop}
    (h : Reading stream p r.sys.stream) (hroom : Q (left r) r)
    (hnext : left r = 0 → wp (onSys (closeCurrentObj.onFail freestream))
      (fun _ r' => Q stream.dataperobj { r' with
        sys := { r'.sys with stream := nextStream r'.sys.stream } }) E r) :
    wp (findData stream.dataperobj) Q E r := by
  obtain ⟨-, hleft⟩ := h.position.left
  rw [h.alike.dataperobj] at hleft
  refine wp_bind.2 (wp_get.2 (wp_ite.2 ⟨fun hzero => ?_, fun _ => wp_pure.2 ?_⟩))
  · rw [hleft, ← h.alike.dataperobj] at hzero
    refine wp_bind.2 (wp_mono (hnext hzero) (fun _ r' h' => ?_) fun _ h' => h')
    exact wp_bind.2 (wp_onSys.2 (wp_modifyStream.2 (wp_pure.2 h')))
  · rw [hleft, ← h.alike.dataperobj]
    exact hroom

theorem readingRules (stream : Stream) (p : Nat) :
    ReadRules stream.dataperobj (fun n r => Reading stream (p + n) r.sys.stream) fun _ => True where
  weaken _ _ := trivial
  find n r h := by
    refine h.find ⟨h, rfl⟩ fun hzero => wp_closeOrFree (fun os closed => ⟨h.next hzero none, ?_⟩)
      fun _ _ => trivial
    rw [← h.alike.dataperobj]
    exact left_next r
  piece n r toread h hleft := by
    -- reading keeps the offset where it is until the bytes are counted
    have hsteady : Steady fun stream' => Reading stream (p + n) stream' ∧
        stream'.offset = r.sys.stream.offset := fun stream' i h => ⟨Reading.steady _ i h.1, h.2⟩
    refine wp_mono (readPiece_spec hsteady ⟨h, rfl⟩ _) ?_ fun _ h => h
    rintro bytes r' ⟨hlen, stream', ⟨h', hoff⟩, hstr⟩
    refine ⟨hlen, ?_⟩
    rw [hstr, ← Nat.add_assoc]
    refine h'.advance ?_
    rw [hoff, h'.alike.header, h'.alike.dataperobj, ← h.alike.header, ← h.alike.dataperobj]
    exact hlen.trans hleft

theorem datastreamRead_spec (h : r.sys.stream.At p) (count : Nat) :
    wp (datastreamRead count) (fun buf r' => Reading r.sys.stream (p + buf.length) r'.sys.stream)
      (fun _ => True) r := by
  refine wp_bind.2 (wp_get.2 (wp_bind.2 (wp_check.2 ⟨fun _ => ?_, fun _ => trivial⟩)))
  refine wp_bind.2 (wp_check.2 ⟨fun _ => ?_, fun _ => trivial⟩)
  refine wp_bind.2 (wp_gettargets.2 ⟨fun _ => ?_, fun _ => trivial⟩)
  have hread : Reading r.sys.stream (p + ([] : List Char).length) r.sys.stream :=
    ⟨Stream.Alike.refl _, h⟩
  refine wp_bind.2 (wp_mono ((readingRules _ p).loop _ hread) ?_ fun _ _ => trivial)
  rintro ⟨buf, left⟩ r' ⟨-, h'⟩
  refine wp_ite.2 ⟨fun _ => ?_, fun _ => wp_pure.2 h'⟩
  refine wp_bind.2 (wp_onSys.2 (wp_modifyStream.2 (wp_pure.2 ⟨h'.alike.trans ⟨rfl, rfl, rfl, rfl⟩, ?_⟩)))
  rw [List.length_append, List.length_replicate, ← Nat.add_assoc]
  exact h'.position.exceed _

/-! ## All positions -/

/-- The positions of a stream are exact: where a seek to byte `x` goes, byte `x` is, and a seek to there
from there stays; seeking from the position or from the end of the file is seeking from its start; and
a read moves on by as many bytes as it returns. -/
structure SeeksExactly (r : Reader) : Prop where
  set : ∀ x y r', datastreamSeek x .set r = (some y, r') →
    y = x ∧ r.sys.stream.Alike r'.sys.stream ∧ r'.sys.stream.At x
  tell : ∀ x y r', datastreamSeek x .set r = (some y, r') →
    (∀ z r'', datastreamSeek 0 .cur r' = (some z, r'') → z = x) ∧
      (r'.HandleWorks → (datastreamSeek 0 .cur r').1 = some x)
  cur : ∀ p, r.sys.stream.At p → ∀ d,
    datastreamSeek d .cur r = datastreamSeek (SizeT.wrap (d + p)) .set r
  «end» : ∀ d, datastreamSeek d .end r =
    datastreamSeek (SizeT.wrap (d + r.sys.stream.filesize)) .set r
  read : ∀ p, r.sys.stream.At p → ∀ count buf r', datastreamRead count r = (some buf, r') →
    r.sys.stream.Alike r'.sys.stream ∧ r'.sys.stream.At (p + buf.length)

theorem seek_cur_eq (hfr : r.sys.stream.Framed) (h : r.sys.stream.At p) (d : Nat) :
    datastreamSeek d .cur r = datastreamSeek (SizeT.wrap (d + p)) .set r :=
  datastreamSeek_congr (h.target_cur hfr d)

/-- Whatever file a stream is of, and wherever it is, its positions are exact. -/
theorem seeks_exactly (r : Reader) (htype : r.sys.stream.type = .read ∨ r.sys.stream.type = .edit)
    (hframed : r.sys.stream.Framed) : SeeksExactly r := by
  have hset : ∀ x y r', datastreamSeek x .set r = (some y, r') →
      y = x ∧ r.sys.stream.Reaches x ∧ Landed (r.sys.stream.positionOf x) r r' ∧
        r'.sys.stream.At x := by
    intro x y r' hseek
    obtain ⟨rfl, hreach, hlanded⟩ := wp_some (datastreamSeek_spec x .set) hseek
    exact ⟨rfl, hreach, hlanded,
      hframed.at_position hlanded.alike hlanded.objno hlanded.offset hlanded.excess⟩
  refine ⟨fun x y r' hseek => ?_, fun x y r' hseek => ?_, fun p h => seek_cur_eq hframed h,
    fun d => datastreamSeek_congr rfl, fun p h count buf r' hread => ?_⟩
  · obtain ⟨rfl, -, hlanded, hat⟩ := hset x y r' hseek
    exact ⟨rfl, hlanded.alike, hat⟩
  · obtain ⟨-, hreach, hlanded, hat⟩ := hset x y r' hseek
    have hframed' := hlanded.alike.framed hframed
    have hwrap : SizeT.wrap (0 + x) = x := by
      have hmax : offMax < SizeT.modulus := by decide
      rw [Nat.zero_add, SizeT.wrap_of_lt (hreach.1.trans hmax)]
    have htell := seek_cur_eq hframed' hat 0
    rw [hwrap] at htell
    refine ⟨fun z r'' hseek' => ?_, fun hworks => ?_⟩
    · rw [htell] at hseek'
      obtain ⟨hz, -, -⟩ := wp_some (datastreamSeek_spec x .set) hseek'
      exact hz
    · obtain ⟨z, r'', hrun, rfl⟩ :=
        wp_returns (hlanded.again htype hreach hworks) fun _ h => h
      rw [htell, hrun]
  · have h' := wp_some (datastreamRead_spec h count) hread
    exact ⟨h'.alike, h'.position⟩

def twoObjects : Sys :=
  (perform .close (perform (.write (List.replicate 150 'x')) (sampleStream 250 [])).2).2

theorem twoObjects_seeks_exactly : ∃ r, readerOf twoObjects 0 = some r ∧ SeeksExactly r := by
  have hframed : (readerOf twoObjects 0).all (fun r => decide r.sys.stream.Framed &&
      decide (r.sys.stream.type = .read)) = true := by decide +kernel
  obtain ⟨r, hr⟩ : ∃ r, readerOf twoObjects 0 = some r :=
    Option.isSome_iff_exists.1 (by decide +kernel)
  rw [hr, Option.all_some, Bool.and_eq_true] at hframed
  exact ⟨r, hr, seeks_exactly r (.inl (of_decide_eq_true hframed.2)) (of_decide_eq_true hframed.1)⟩

theorem opened_at {type : StreamType} {pos : MarfsPosition} {path : List Char} {target : Target}
    {contents : List Char × List Char → Nat → Option (List Char)} {outcomes : List (Option Nat)}
    (hopen : opened type pos path target contents outcomes = some r) (hfr : r.sys.stream.Framed) :
    r.sys.stream.At 0 := by
  obtain ⟨stream, hstr, rfl⟩ := Option.map_eq_some_iff.1 hopen
  obtain ⟨ftag, blank, -, -, -, hent⟩ := genExisting_spec hstr
  exact hfr.at_start (hent.objno.trans hent.cur_objno.symm)
    (hent.offset.trans hent.cur_offset.symm) hent.excess

end Reader

end Marfs.Datastream
