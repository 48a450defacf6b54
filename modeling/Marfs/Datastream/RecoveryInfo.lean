import Marfs.Datastream.SeekExact
import Marfs.Recovery.FinfoPrinted

/-!
# Reading recovery info

Behind the data that a file has in an object, its writer left a record.  `datastream_recoveryinfo` looks
for it behind the data that is still available from the position of the stream on, in the object of the
data handle.  These are the same place as long as the data that is available fills the object, or
nothing of the file was truncated; and a stream that has read an object to its end, but not gone on to
the next one, looks in the old object for the place that belongs to the new one.
-/

namespace Marfs.Datastream

open Cstring Machine Recovery Tagging Sys List
open Machine.Op

namespace Stream

variable {stream stream' : Stream} {p : Nat}

def dataEnd (stream : Stream) (bytes i : Nat) : Nat :=
  stream.recoveryheaderlen + min stream.dataperobj
    (stream.minoffset + bytes - (i - stream.cur.ftag.objno) * stream.dataperobj)

/-- The file reaches into object `i`; even an empty file has its first object. -/
def Spans (stream : Stream) (i : Nat) : Prop :=
  i = stream.cur.ftag.objno ∨ stream.cur.ftag.objno < i ∧
    (i - stream.cur.ftag.objno) * stream.dataperobj < stream.minoffset + stream.cur.ftag.bytes

def Fills (stream : Stream) (i : Nat) : Prop :=
  (i + 1 - stream.cur.ftag.objno) * stream.dataperobj ≤
    stream.minoffset + stream.cur.ftag.availbytes

def chunk (stream : Stream) (contents : List Char × List Char → Nat → Option (List Char)) : List Char :=
  (contents (stream.cur.ftag.ctag, stream.cur.ftag.streamid) stream.objno).getD []

def AtEnd (stream : Stream) : Prop :=
  stream.offset = stream.recoveryheaderlen + stream.dataperobj

instance (stream : Stream) : Decidable stream.AtEnd := inferInstanceAs (Decidable (_ = _))

theorem positionOf_eq (stream : Stream) (p : Nat) :
    stream.positionOf p =
      { totaloffset := p
        dataremaining := stream.cur.ftag.availbytes - min p stream.cur.ftag.availbytes
        excessremaining := max stream.filesize p - stream.cur.ftag.availbytes -
          (p - stream.cur.ftag.availbytes)
        objno := stream.cur.ftag.objno +
          (min p stream.cur.ftag.availbytes + stream.minoffset) / stream.dataperobj
        offset := stream.recoveryheaderlen +
          (min p stream.cur.ftag.availbytes + stream.minoffset) % stream.dataperobj
        excessoffset := p - stream.cur.ftag.availbytes
        dataperobj := stream.dataperobj } := by
  have hinner : (if p > stream.cur.ftag.availbytes then stream.cur.ftag.availbytes else p) =
      min p stream.cur.ftag.availbytes := by split <;> omega
  have hexc : (if p > stream.cur.ftag.availbytes then p - stream.cur.ftag.availbytes else 0) =
      p - stream.cur.ftag.availbytes := by split <;> omega
  have hremain : (if max stream.filesize p > stream.cur.ftag.availbytes
      then max stream.filesize p - stream.cur.ftag.availbytes else 0) =
      max stream.filesize p - stream.cur.ftag.availbytes := by split <;> omega
  unfold positionOf position
  simp only [hinner, hexc, hremain]
  by_cases hcrosses : min p stream.cur.ftag.availbytes + stream.minoffset ≥ stream.dataperobj
  · simp only [hcrosses, decide_true, if_true]
  · have hlt := Nat.lt_of_not_ge hcrosses
    simp only [hcrosses, decide_false, Bool.false_eq_true, if_false, Nat.div_eq_of_lt hlt,
      Nat.mod_eq_of_lt hlt, Nat.add_zero]

theorem At.inner (h : stream.At p) (hexc : stream.excessoffset = p - stream.cur.ftag.availbytes) :
    min p stream.cur.ftag.availbytes + stream.minoffset =
      (stream.objno - stream.cur.ftag.objno) * stream.dataperobj +
        (stream.offset - stream.recoveryheaderlen) := by
  have hpos := h.position
  omega

theorem At.position_inside (h : stream.At p) (hroom : 0 < stream.dataperobj)
    (hexc : stream.excessoffset = p - stream.cur.ftag.availbytes) (hend : ¬ stream.AtEnd) :
    (stream.positionOf p).objno = stream.objno ∧ (stream.positionOf p).offset = stream.offset := by
  have hinner := h.inner hexc
  have hobj := h.object
  have hhdr := h.header
  have hlt : stream.offset - stream.recoveryheaderlen < stream.dataperobj := by
    have hin := h.inside
    unfold AtEnd at hend
    omega
  rw [positionOf_eq, hinner, Nat.mul_comm]
  constructor
  · dsimp only
    rw [Nat.mul_add_div hroom, Nat.div_eq_of_lt hlt]
    omega
  · dsimp only
    rw [Nat.mul_add_mod, Nat.mod_eq_of_lt hlt]
    omega

theorem At.position_end (h : stream.At p) (hroom : 0 < stream.dataperobj)
    (hexc : stream.excessoffset = p - stream.cur.ftag.availbytes) (hend : stream.AtEnd) :
    (stream.positionOf p).objno = stream.objno + 1 ∧
      (stream.positionOf p).offset = stream.recoveryheaderlen := by
  have hinner := h.inner hexc
  have hobj := h.object
  have hused : stream.offset - stream.recoveryheaderlen = stream.dataperobj := by
    unfold AtEnd at hend
    omega
  rw [positionOf_eq, hinner, hused, ← Nat.succ_mul]
  constructor
  · dsimp only
    rw [Nat.mul_div_cancel _ hroom]
    omega
  · dsimp only
    rw [Nat.mul_mod_left, Nat.add_zero]

theorem At.position_le (h : stream.At p) (hroom : 0 < stream.dataperobj)
    (hexc : stream.excessoffset = p - stream.cur.ftag.availbytes) :
    (stream.positionOf p).offset ≤ stream.offset := by
  by_cases hend : stream.AtEnd
  · rw [(h.position_end hroom hexc hend).2]
    exact h.header
  · rw [(h.position_inside hroom hexc hend).2]

theorem At.offset_le (h : stream.At p) (hexc : stream.excessoffset = p - stream.cur.ftag.availbytes)
    (havail : stream.cur.ftag.availbytes ≤ stream.cur.ftag.bytes) :
    stream.offset ≤ stream.dataEnd stream.cur.ftag.bytes stream.objno := by
  have hinner := h.inner hexc
  have hin := h.inside
  unfold dataEnd
  omega

/-- From its position on, the data that is available leads a stream to the end of the data of its
object: that data fills the object, or is all there is of the file. -/
def Leads (stream : Stream) : Prop :=
  if stream.AtEnd then stream.Fills (stream.objno + 1)
  else stream.Fills stream.objno ∨
    stream.cur.ftag.availbytes = stream.cur.ftag.bytes ∧ stream.Spans stream.objno

theorem At.leads_spans (h : stream.At p) (hroom : 0 < stream.dataperobj)
    (havail : stream.cur.ftag.availbytes ≤ stream.cur.ftag.bytes) (hleads : stream.Leads) :
    stream.Spans stream.objno := by
  obtain ⟨k, hk⟩ := Nat.exists_eq_add_of_le h.object
  have hfilled : ∀ j, (k + j + 1) * stream.dataperobj ≤
      stream.minoffset + stream.cur.ftag.availbytes → stream.Spans stream.objno := by
    intro j hj
    cases k with
    | zero => exact .inl hk
    | succ k =>
      refine .inr ⟨by omega, ?_⟩
      rw [hk, Nat.add_sub_cancel_left]
      rw [Nat.add_mul, Nat.one_mul, Nat.add_mul] at hj
      omega
  unfold Leads Fills at hleads
  split at hleads
  · have hsucc : stream.objno + 1 + 1 - stream.cur.ftag.objno = k + 1 + 1 := by omega
    rw [hsucc] at hleads
    exact hfilled 1 hleads
  · rcases hleads with hfills | ⟨-, hspans⟩
    · have hsucc : stream.objno + 1 - stream.cur.ftag.objno = k + 0 + 1 := by omega
      rw [hsucc] at hfills
      exact hfilled 0 hfills
    · exact hspans

theorem At.leads_dataEnd (h : stream.At p) (hroom : 0 < stream.dataperobj)
    (hexc : stream.excessoffset = p - stream.cur.ftag.availbytes)
    (havail : stream.cur.ftag.availbytes ≤ stream.cur.ftag.bytes) (hleads : stream.Leads) :
    stream.dataEnd stream.cur.ftag.availbytes (stream.positionOf p).objno =
      stream.dataEnd stream.cur.ftag.bytes stream.objno := by
  obtain ⟨k, hk⟩ := Nat.exists_eq_add_of_le h.object
  have hk' : stream.objno - stream.cur.ftag.objno = k := by omega
  have hsucc : stream.objno + 1 - stream.cur.ftag.objno = k + 1 := by omega
  unfold Leads Fills at hleads
  unfold dataEnd
  by_cases hend : stream.AtEnd
  · have hsucc' : stream.objno + 1 + 1 - stream.cur.ftag.objno = k + 1 + 1 := by omega
    rw [if_pos hend, hsucc', Nat.add_mul, Nat.one_mul, Nat.add_mul, Nat.one_mul] at hleads
    rw [(h.position_end hroom hexc hend).1, hsucc, hk', Nat.add_mul, Nat.one_mul]
    omega
  · rw [if_neg hend, hsucc, Nat.add_mul, Nat.one_mul] at hleads
    rw [(h.position_inside hroom hexc hend).1, hk']
    omega

theorem tgtoffset_eq (hfr : stream.Framed) (hmax : stream.cur.ftag.availbytes < offMax) (p : Nat) :
    Reader.tgtoffset stream.recoveryheaderlen (stream.positionOf p) =
      stream.dataEnd stream.cur.ftag.availbytes (stream.positionOf p).objno := by
  have hroom := hfr.room
  have hmin := hfr.minoffset_eq
  have hst := hfr.offset
  have hmodulus : offMax + offMax = SizeT.modulus := by decide
  rw [positionOf_eq]
  dsimp only [Reader.tgtoffset, dataEnd]
  obtain ⟨inner, hinner⟩ : ∃ inner, min p stream.cur.ftag.availbytes = inner := ⟨_, rfl⟩
  have hle : inner ≤ stream.cur.ftag.availbytes := by omega
  rw [hinner, Nat.add_sub_cancel_left]
  have hdiv := Nat.div_add_mod (inner + stream.minoffset) stream.dataperobj
  rw [Nat.mul_comm] at hdiv
  rw [SizeT.sub_of_diff_lt (by omega) (by omega)]
  split
  · omega
  · omega

end Stream

namespace Reader

variable {r r₀ : Reader} {p excess : Nat}

/-! ## The data handle keeps up -/

/-- The data handle is where the stream is, unless that has come to the end of its object. -/
structure InPlace (r : Reader) (i : Nat) : Prop where
  object : i = r.sys.stream.objno
  owner : r.owner = (r.sys.stream.cur.ftag.ctag, r.sys.stream.cur.ftag.streamid)
  place : ¬ r.sys.stream.AtEnd → r.place = r.sys.stream.offset

/-- The file is being read, up to byte `p`, and the data handle keeps up. -/
structure Synced (r₀ : Reader) (excess p : Nat) (r : Reader) : Prop where
  reading : Reading r₀.sys.stream p r.sys.stream
  excess : r.sys.stream.excessoffset = excess
  contents : r.contents = r₀.contents
  handle : ∀ i, r.sys.stream.datahandle = some i → r.InPlace i

theorem Synced.without (h : Synced r₀ excess p r) {os : List (Option Nat)} {owner : List Char × List Char}
    {place : Nat} (hnone : r.sys.stream.datahandle = none) :
    Synced r₀ excess p { r with
      sys := { r.sys with outcomes := os }, owner := owner, place := place } :=
  ⟨h.reading, h.excess, h.contents, fun _ hi => absurd (hnone.symm.trans hi) (by simp)⟩

theorem Synced.fresh (h : Synced r₀ excess p r) (os : List (Option Nat)) :
    Synced r₀ excess p { freshHandle r with
      sys := { (freshHandle r).sys with outcomes := os }, place := r.sys.stream.offset } := by
  refine ⟨Reading.steady _ _ h.reading, h.excess, h.contents, fun i hi => ⟨?_, rfl, fun _ => rfl⟩⟩
  exact (Option.some.inj hi).symm

theorem Synced.advance (h : Synced r₀ excess p r) {n : Nat} (hn : n ≤ left r) (os : List (Option Nat)) :
    Synced r₀ excess (p + n) { r with
      sys := { r.sys with
        outcomes := os, stream := { r.sys.stream with offset := r.sys.stream.offset + n } }
      place := r.place + n } := by
  refine ⟨h.reading.advance hn, h.excess, h.contents, fun i hi => ?_⟩
  obtain ⟨hobj, howner, hplc⟩ := h.handle i hi
  refine ⟨hobj, howner, fun hend => ?_⟩
  have hbef : ¬ r.sys.stream.AtEnd := by
    intro hat
    apply hend
    have hzero : n = 0 := by
      unfold left at hn
      unfold Stream.AtEnd at hat
      omega
    rw [hzero]
    exact hat
  exact congrArg (· + n) (hplc hbef)

/-- Zeros are read behind the data. -/
theorem Synced.exceed (h : Synced r₀ excess p r) (n : Nat) :
    Synced r₀ (excess + n) (p + n) { r with
      sys := { r.sys with
        stream := { r.sys.stream with excessoffset := r.sys.stream.excessoffset + n } } } := by
  refine ⟨⟨h.reading.alike.trans ⟨rfl, rfl, rfl, rfl⟩, h.reading.position.exceed n⟩,
    congrArg (· + n) h.excess, h.contents, fun i hi => ?_⟩
  obtain ⟨hobj, howner, hplc⟩ := h.handle i hi
  exact ⟨hobj, howner, hplc⟩

theorem Synced.next (h : Synced r₀ excess p r) (hleft : left r = 0) (os : List (Option Nat))
    (closed : Nat → Bool) : Synced r₀ excess p { r with sys := { r.sys with
      outcomes := os, closed := closed
      stream := nextStream { r.sys.stream with datahandle := none } } } :=
  ⟨h.reading.next hleft none, h.excess, h.contents, fun _ hi => absurd hi (by simp [nextStream])⟩

variable {Q : Unit → Reader → Prop} {E : Reader → Prop} {s : Sys} {finfo : Nat → RecoveryFinfo}
  {pos : MarfsPosition} {path : List Char} {contents : List Char × List Char → Nat → Option (List Char)}
  {outcomes : List (Option Nat)}

theorem wp_openNeeded
    (hoff : r.sys.stream.offset ≠ 0) (hopen : r.sys.stream.datahandle ≠ none → Q () r)
    (hQ : ∀ os, r.sys.stream.datahandle = none → Q () { freshHandle r with
      sys := { (freshHandle r).sys with outcomes := os }, place := r.sys.stream.offset })
    (hE : ∀ os owner place, r.sys.stream.datahandle = none → E { r with
      sys := { r.sys with outcomes := os }, owner := owner, place := place }) :
    wp openNeeded Q E r := by
  refine wp_bind.2 (wp_get.2 (wp_ite.2 ⟨fun hnone => ?_, fun hsome => wp_pure.2 (hopen ?_)⟩))
  swap
  · rintro hnone
    rw [hnone] at hsome
    exact hsome rfl
  have hnone := Option.isNone_iff_eq_none.1 hnone
  refine wp_bind.2 (wp_onSys.2 (wp_call (fun os => ?_) fun os => hE os r.owner r.place hnone))
  refine wp_bind.2 (wp_onSys.2 (wp_call (fun os => ?_) fun os => hE os r.owner r.place hnone))
  refine wp_bind.2 (wp_get.2 (wp_bind.2 (wp_check.2
    ⟨fun _ => ?_, fun _ => hE os r.owner r.place hnone⟩)))
  refine wp_bind.2 (wp_modify.2 (wp_ite.2 ⟨fun _ => wp_onFail.2 ?_, fun hzero => ?_⟩))
  · refine wp_seekTo (fun _ os' _ _ => hQ os' hnone) fun os' place => ?_
    have hsame : { r.sys.stream with datahandle := none } = r.sys.stream := by rw [← hnone]
    change E { r with
      sys := { r.sys with outcomes := os', stream := { r.sys.stream with datahandle := none } }
      owner := (r.sys.stream.cur.ftag.ctag, r.sys.stream.cur.ftag.streamid), place := place }
    rw [hsame]
    exact hE os' _ place hnone
  · exact absurd hoff hzero

theorem Synced.openNeeded (h : Synced r₀ excess p r) (hpos : 0 < r.sys.stream.recoveryheaderlen) :
    wp openNeeded (fun _ r' => Synced r₀ excess p r' ∧ left r' = left r)
      (fun r' => Synced r₀ excess p r') r := by
  have hoff : r.sys.stream.offset ≠ 0 := by
    have hhdr := h.reading.position.header
    omega
  exact wp_openNeeded hoff (fun _ => ⟨h, rfl⟩) (fun os _ => ⟨h.fresh os, rfl⟩)
    fun _ _ _ hnone => h.without hnone

theorem Synced.readPiece (h : Synced r₀ excess p r) (hpos : 0 < r.sys.stream.recoveryheaderlen)
    {toread : Nat} (htoread : toread ≤ left r) :
    wp (readPiece toread) (fun bytes r' => bytes.length ≤ toread ∧
      Synced r₀ excess (p + bytes.length) r') (fun _ => False) r := by
  -- where a call fails, nothing was read
  have hnothing : ∀ r', Synced r₀ excess p r' → wp (do
      onSys (modifyStream fun stream =>
        { stream with offset := stream.offset + ((none : Option (List Char)).getD []).length })
      pure ((none : Option (List Char)).getD []) : Op Reader (List Char)) (fun bytes r' =>
        bytes.length ≤ toread ∧ Synced r₀ excess (p + bytes.length) r') (fun _ => False) r' :=
    fun r' h' => wp_bind.2 (wp_onSys.2 (wp_modifyStream.2 (wp_pure.2 ⟨Nat.zero_le _, h'⟩)))
  refine wp_bind.2 (wp_attempt.2 (wp_bind.2 (wp_mono (h.openNeeded hpos) ?_ hnothing)))
  rintro _ r' ⟨h', hleft⟩
  refine wp_neRead (fun i os n _ _ => ?_) (hnothing r' h')
  have hlen : ((((r'.object i).drop r'.place).take (min n toread)).length) ≤ toread :=
    (length_take_le _ _).trans (Nat.min_le_right _ _)
  refine wp_bind.2 (wp_onSys.2 (wp_modifyStream.2 (wp_pure.2 ⟨hlen, ?_⟩)))
  exact h'.advance (hlen.trans (hleft ▸ htoread)) os

/-- What a failed call leaves of a stream at byte `p`. -/
def SyncedKept (r₀ : Reader) (excess p : Nat) (r : Reader) : Prop :=
  r.sys.live = false ∨ Synced r₀ excess p r

theorem syncedRules (r₀ : Reader) (hpos : 0 < r₀.sys.stream.recoveryheaderlen) (excess p : Nat) :
    ReadRules r₀.sys.stream.dataperobj (fun n r => Synced r₀ excess (p + n) r)
      (SyncedKept r₀ excess p) where
  weaken _ h := .inr h
  find n r h := by
    refine h.reading.find ⟨h, rfl⟩ fun hleft => wp_closeOrFree (fun os closed => ?_)
      fun _ hlive => .inl hlive
    refine ⟨h.next hleft os closed, ?_⟩
    rw [← h.reading.alike.dataperobj]
    exact left_next r
  piece n r toread h htoread := by
    have hhdr : 0 < r.sys.stream.recoveryheaderlen := h.reading.alike.header ▸ hpos
    refine wp_mono (h.readPiece hhdr htoread) ?_ fun _ h => h
    rintro bytes r' ⟨hlen, h'⟩
    rw [← Nat.add_assoc]
    exact ⟨hlen, h'⟩

/-! ## Seeks and reads -/

theorem datastreamSeek_handle (htype : r.sys.stream.type = .read)
    (hhdl : ∀ i, r.sys.stream.datahandle = some i → r.InPlace i) (offset : Nat) (whence : Whence) :
    wp (datastreamSeek offset whence) (fun _ r' => r'.contents = r.contents ∧
      ∀ i, r'.sys.stream.datahandle = some i → r'.InPlace i)
      (fun r' => r'.sys.live = false ∨ r' = r) r := by
  refine wp_bind.2 (wp_gettargets.2 ⟨fun _ => ?_, fun _ => .inr rfl⟩)
  obtain ⟨pos, -⟩ : ∃ pos, pos = r.sys.stream.positionOf (r.sys.stream.target offset whence) :=
    ⟨_, rfl⟩
  refine wp_bind.2 (wp_get.2 (wp_bind.2 (wp_check.2 ⟨fun _ => ?_, fun _ => .inr rfl⟩)))
  generalize r.sys.stream.positionOf (r.sys.stream.target offset whence) = pos
  -- a handle that is still open is that of the target object
  have hmove : ∀ r', r'.contents = r.contents →
      (∀ i, r'.sys.stream.datahandle = some i → i = pos.objno ∧
        r'.owner = (r'.sys.stream.cur.ftag.ctag, r'.sys.stream.cur.ftag.streamid)) →
      wp (do
        seekHandle pos.offset
        onSys (modifyStream (moveTo pos))
        pure pos.totaloffset : Op Reader Nat) (fun _ r' => r'.contents = r.contents ∧
          ∀ i, r'.sys.stream.datahandle = some i → r'.InPlace i)
        (fun r' => r'.sys.live = false ∨ r' = r) r' := by
    intro r' hcont h
    refine wp_bind.2 (wp_bind.2 (wp_get.2 (wp_ite.2 ⟨fun _ => wp_onFail.2 ?_, fun hnone => ?_⟩)))
    · refine wp_seekTo (fun j os hj _ => ?_) fun _ _ => .inl rfl
      refine wp_bind.2 (wp_onSys.2 (wp_modifyStream.2 (wp_pure.2 ⟨hcont, fun i hi => ?_⟩)))
      obtain ⟨hobj, howner⟩ := h i hi
      exact ⟨hobj, howner, fun _ => rfl⟩
    · refine wp_pure.2 (wp_bind.2 (wp_onSys.2 (wp_modifyStream.2 (wp_pure.2
        ⟨hcont, fun i hi => absurd ?_ hnone⟩))))
      exact Option.isSome_iff_exists.2 ⟨i, hi⟩
  refine wp_bind.2 (wp_get.2 (wp_bind.2 (wp_check.2 ⟨fun _ => ?_, fun _ => .inr rfl⟩)))
  refine wp_ite.2 ⟨fun _ => wp_bind.2 (wp_bind.2 (wp_get.2 (wp_ite.2 ⟨fun hedit => ?_, fun _ => ?_⟩))),
    fun hstay => hmove r rfl fun i hi => ?_⟩
  · rw [htype] at hedit
    cases hedit
  · refine wp_closeOrFree (fun os closed => hmove _ rfl fun i hi => ?_) fun _ hlive => .inl hlive
    cases hi
  · have hsame : r.sys.stream.objno = pos.objno := by simpa [hi] using hstay
    obtain ⟨hobj, howner, -⟩ := hhdl i hi
    exact ⟨hobj.trans hsame, howner⟩

structure Browsed (r₀ : Reader) (p : Nat) (r : Reader) : Prop where
  synced : Synced r₀ (p - r₀.sys.stream.cur.ftag.availbytes) p r
  bound : p ≤ r₀.sys.stream.filesize

theorem Browsed.seek (htype : r₀.sys.stream.type = .read) (hfr : r₀.sys.stream.Framed) (h : Browsed r₀ p r)
    (offset : Nat) (whence : Whence) :
    wp (datastreamSeek offset whence) (fun x r' => Browsed r₀ x r')
      (fun r' => r'.sys.live = false ∨ Browsed r₀ p r') r := by
  have halk := h.synced.reading.alike
  have htype' : r.sys.stream.type = .read := halk.type.trans htype
  refine wp_mono (wp_and (datastreamSeek_spec offset whence)
    (datastreamSeek_handle htype' h.synced.handle offset whence)) ?_ ?_
  · rintro x r' ⟨⟨-, hreach, hlanded⟩, hcont, hhdl⟩
    have hat : r'.sys.stream.At x := (halk.framed hfr).at_position hlanded.alike hlanded.objno
      hlanded.offset hlanded.excess
    refine ⟨⟨⟨halk.trans hlanded.alike, hat⟩, ?_, hcont.trans h.synced.contents, hhdl⟩, ?_⟩
    · rw [hlanded.excess, Stream.positionOf_eq, halk.file]
    · rw [← halk.filesize]
      refine hreach.2.resolve_right ?_
      rw [htype']
      decide
  · rintro r' ⟨-, hlive | rfl⟩
    · exact .inl hlive
    · exact .inr h

theorem Browsed.readTo (hpos : 0 < r₀.sys.stream.recoveryheaderlen) (h : Browsed r₀ p r) {count zeros : Nat}
    (hcnt : p + count ≤ r₀.sys.stream.cur.ftag.availbytes ∨ count = 0)
    (hzeros : zeros = 0 ∨ r₀.sys.stream.cur.ftag.availbytes ≤ p + count)
    (hfile : p + count + zeros ≤ r₀.sys.stream.filesize) :
    wp (readTo r₀.sys.stream.dataperobj count zeros) (fun buf r' => Browsed r₀ (p + buf.length) r')
      (fun r' => r'.sys.live = false ∨ Browsed r₀ p r') r := by
  obtain ⟨hsynced, hbound⟩ := h
  generalize hA : r₀.sys.stream.cur.ftag.availbytes = avail at *
  have hst : Synced r₀ (p - avail) (p + ([] : List Char).length) r := hsynced
  refine wp_bind.2 (wp_mono ((syncedRules r₀ hpos _ p).loop count hst) ?_ ?_)
  swap
  · rintro r' (hlive | h')
    · exact .inl hlive
    · exact .inr ⟨hA ▸ h', hbound⟩
  rintro ⟨buf, left⟩ r' ⟨hlen, h'⟩
  simp only [length_nil, Nat.zero_add] at hlen h'
  refine wp_ite.2 ⟨fun hleft => ?_, fun _ => wp_pure.2 ?_⟩
  · refine wp_bind.2 (wp_onSys.2 (wp_modifyStream.2 (wp_pure.2 ?_)))
    have hexc : p - avail + zeros = p + (buf.length + zeros) - avail := by omega
    rw [length_append, length_replicate]
    refine ⟨?_, by omega⟩
    rw [hA, ← hexc, ← Nat.add_assoc]
    exact h'.exceed zeros
  · have hexc : p - avail = p + buf.length - avail := by omega
    rw [hexc] at h'
    exact ⟨hA ▸ h', by omega⟩

theorem Browsed.target (hfr : r₀.sys.stream.Framed) (hfile : r₀.sys.stream.filesize < offMax)
    (h : Browsed r₀ p r) : r.sys.stream.target 0 .cur = p := by
  have hbound := h.bound
  have hmax : offMax < SizeT.modulus := by decide
  rw [h.synced.reading.position.target_cur (h.synced.reading.alike.framed hfr), Nat.zero_add,
    SizeT.wrap_of_lt (by omega)]

theorem Browsed.read (hfr : r₀.sys.stream.Framed) (hfile : r₀.sys.stream.filesize < offMax)
    (havail : r₀.sys.stream.cur.ftag.availbytes ≤ r₀.sys.stream.filesize) (h : Browsed r₀ p r) (count : Nat) :
    wp (datastreamRead count) (fun buf r' => Browsed r₀ (p + buf.length) r')
      (fun r' => r'.sys.live = false ∨ Browsed r₀ p r') r := by
  have halk := h.synced.reading.alike
  have hbound := h.bound
  refine wp_bind.2 (wp_get.2 (wp_bind.2 (wp_check.2 ⟨fun _ => ?_, fun _ => .inr h⟩)))
  refine wp_bind.2 (wp_check.2 ⟨fun _ => ?_, fun _ => .inr h⟩)
  refine wp_bind.2 (wp_gettargets.2 ⟨fun _ => ?_, fun _ => .inr h⟩)
  rw [h.target hfr hfile, Stream.positionOf_eq]
  dsimp only
  rw [halk.file, halk.filesize, max_eq_left hbound, halk.dataperobj]
  exact h.readTo hfr.header (by omega) (by omega) (by omega)

def Browses (r r' : Reader) : Prop :=
  r.sys.live = true ∧ ((∃ offset whence, r' = (datastreamSeek offset whence r).2) ∨
    ∃ count, r' = (datastreamRead count r).2)

theorem Browsed.run (htype : r₀.sys.stream.type = .read) (hfr : r₀.sys.stream.Framed)
    (hfile : r₀.sys.stream.filesize < offMax)
    (havail : r₀.sys.stream.cur.ftag.availbytes ≤ r₀.sys.stream.filesize) (h : Browsed r₀ 0 r₀)
    (hrun : Relation.ReflTransGen Browses r₀ r) : r.sys.live = false ∨ ∃ p, Browsed r₀ p r := by
  induction hrun with
  | refl => exact .inr ⟨0, h⟩
  | tail _ hstep ih =>
    obtain ⟨hlive, hstep⟩ := hstep
    obtain ⟨p, hp⟩ := ih.resolve_left (by simp [hlive])
    rcases hstep with ⟨offset, whence, rfl⟩ | ⟨count, rfl⟩
    · refine wp_snd (P := fun r' => r'.sys.live = false ∨ ∃ p, Browsed r₀ p r')
        (wp_mono (hp.seek htype hfr offset whence) (fun x _ h => .inr ⟨x, h⟩) ?_)
      exact fun _ h => h.imp id fun h => ⟨p, h⟩
    · refine wp_snd (P := fun r' => r'.sys.live = false ∨ ∃ p, Browsed r₀ p r')
        (wp_mono (hp.read hfr hfile havail count) (fun buf _ h => .inr ⟨_, h⟩) ?_)
      exact fun _ h => h.imp id fun h => ⟨p, h⟩

/-! ## Recovery info -/

/-- In each of the objects of a file its writer left a record, behind the data it wrote to it. -/
structure Recorded (finfo : Nat → RecoveryFinfo) (r : Reader) : Prop where
  printable : ∀ i, r.sys.stream.Spans i → (finfo i).Printable
  nsec : ∀ i, r.sys.stream.Spans i → (finfo i).mtimeNsec ≤ nsecMax
  object : ∀ i, r.sys.stream.Spans i → ∃ before after,
    r.contents (r.sys.stream.cur.ftag.ctag, r.sys.stream.cur.ftag.streamid) i =
      some (before ++ finfoBlock (finfo i) r.sys.stream.cur.ftag.recoverybytes ++ after) ∧
    before.length = r.sys.stream.dataEnd r.sys.stream.cur.ftag.bytes i

theorem wp_outcome_of_nil {Q : Option Nat → Sys → Prop} {E : Sys → Prop} (h : s.outcomes = [])
    (hQ : Q none s) : wp outcome Q E s := by
  have hrun : outcome s = (some none, s) := by
    unfold outcome
    rw [h]
  exact wp_of_some hrun hQ

theorem wp_call_of_nil {Q : Unit → Sys → Prop} {E : Sys → Prop} (h : s.outcomes = []) (hQ : Q () s) :
    wp call Q E s :=
  wp_bind.2 (wp_outcome_of_nil h (wp_check.2 ⟨fun _ => hQ, fun hno => absurd hno (by decide)⟩))

section Calls

variable {i : Nat} {E : Reader → Prop}

variable {Q : Unit → Reader → Prop} {offset : Nat}

theorem wp_seekTo_of_nil
    (hhdl : r.sys.stream.datahandle = some i) (hcalls : r.sys.outcomes = [])
    (hQ : offset ≤ (r.object i).length → Q () { r with place := offset })
    (hE : (r.object i).length < offset → ∀ place, E { r with place := place }) :
    wp (seekTo offset) Q E r := by
  refine wp_bind.2 (wp_bind.2 (wp_get.2 ?_))
  rw [hhdl]
  refine wp_bind.2 (wp_onSys.2 (wp_call_of_nil hcalls ?_))
  refine wp_bind.2 (wp_modify.2 (wp_pure.2 (wp_check.2 ⟨fun hplc => ?_, fun hshort => hE ?_ _⟩)))
  · have hmin := of_decide_eq_true hplc
    rw [hmin]
    exact hQ (hmin ▸ Nat.min_le_right _ _)
  · have hmin := of_decide_eq_false hshort
    exact Nat.lt_of_not_le fun hle => hmin (Nat.min_eq_left hle)

theorem wp_seekTo_of_le
    (hhdl : r.sys.stream.datahandle = some i) (hcalls : r.sys.outcomes = [])
    (hle : offset ≤ (r.object i).length) (hQ : Q () { r with place := offset }) :
    wp (seekTo offset) Q E r :=
  wp_seekTo_of_nil hhdl hcalls (fun _ => hQ) fun hlt => absurd hle (Nat.not_le.2 hlt)

theorem wp_neRead_of_nil {count : Nat} {Q : List Char → Reader → Prop}
    (hhdl : r.sys.stream.datahandle = some i) (hcalls : r.sys.outcomes = [])
    (hQ : count ≤ uintMax → Q (((r.object i).drop r.place).take count) { r with
      place := r.place + (((r.object i).drop r.place).take count).length })
    (hE : ¬ count ≤ uintMax → E r) : wp (neRead count) Q E r := by
  refine wp_bind.2 (wp_get.2 ?_)
  rw [hhdl]
  refine wp_bind.2 (wp_check.2 ⟨fun hcnt => ?_, fun hno => hE (of_decide_eq_false hno)⟩)
  have hQ := hQ (of_decide_eq_true hcnt)
  refine wp_bind.2 (wp_onSys.2 (wp_outcome_of_nil hcalls (wp_bind.2 (wp_modify.2 (wp_pure.2 ?_)))))
  rw [Option.getD_none, take_take, Nat.min_self]
  exact hQ

theorem freshHandle_object (htype : r.sys.stream.type = .read) (place : Nat) :
    ({ freshHandle r with place := place } : Reader).object r.sys.stream.objno =
      r.sys.stream.chunk r.contents := by
  unfold Reader.object
  rw [if_pos (show ({ freshHandle r with place := place } : Reader).sys.stream.type = .read from htype)]
  rfl

theorem InPlace.eq_freshHandle (h : r.InPlace i) (hi : r.sys.stream.datahandle = some i) :
    ({ freshHandle r with place := r.place } : Reader) = r := by
  unfold freshHandle
  rw [← h.object, ← hi, ← h.owner]

theorem wp_openNeeded_of_nil (hcalls : r.sys.outcomes = [])
    (htype : r.sys.stream.type = .read) (hhdl : ∀ i, r.sys.stream.datahandle = some i → r.InPlace i)
    (hQ : ∀ place, (¬ r.sys.stream.AtEnd → place = r.sys.stream.offset) →
      Q () { freshHandle r with place := place })
    (hE : r.sys.stream.datahandle = none →
      (r.sys.stream.chunk r.contents).drop r.sys.stream.offset = [] →
      ∀ owner place, E { r with owner := owner, place := place }) : wp openNeeded Q E r := by
  refine wp_bind.2 (wp_get.2 (wp_ite.2 ⟨fun hnone => ?_, fun hsome => wp_pure.2 ?_⟩))
  · have hnone := Option.isNone_iff_eq_none.1 hnone
    refine wp_bind.2 (wp_onSys.2 (wp_call_of_nil hcalls ?_))
    refine wp_bind.2 (wp_onSys.2 (wp_call_of_nil hcalls ?_))
    refine wp_bind.2 (wp_get.2 (wp_bind.2 (wp_check.2 ⟨fun _ => ?_, fun hno => ?_⟩)))
    · refine wp_bind.2 (wp_modify.2 (wp_ite.2 ⟨fun _ => wp_onFail.2 ?_, fun hzero => wp_pure.2 ?_⟩))
      · refine wp_seekTo_of_nil rfl hcalls (fun _ => hQ _ fun _ => rfl) fun hshort place => ?_
        have hobj : (freshHandle r).object r.sys.stream.objno = r.sys.stream.chunk r.contents :=
          freshHandle_object htype 0
        rw [hobj] at hshort
        have hsame : { r.sys.stream with datahandle := none } = r.sys.stream := by rw [← hnone]
        change E { r with
          sys := { r.sys with stream := { r.sys.stream with datahandle := none } }
          owner := (r.sys.stream.cur.ftag.ctag, r.sys.stream.cur.ftag.streamid), place := place }
        rw [hsame]
        exact hE hnone (drop_eq_nil_of_le hshort.le) _ place
      · exact hQ 0 fun _ => (not_not.1 hzero).symm
    · have hmiss : r.contents (r.sys.stream.cur.ftag.ctag, r.sys.stream.cur.ftag.streamid)
          r.sys.stream.objno = none := Option.not_isSome_iff_eq_none.1 (by rw [hno]; decide)
      refine hE hnone ?_ r.owner r.place
      unfold Stream.chunk
      rw [hmiss, Option.getD_none, drop_nil]
  · cases hi : r.sys.stream.datahandle with
    | none =>
      rw [hi] at hsome
      exact absurd rfl hsome
    | some i =>
      have hplc := hhdl i hi
      have hopen := hQ r.place hplc.place
      rw [hplc.eq_freshHandle hi] at hopen
      exact hopen

end Calls

theorem finfoBlock_of_length {info : RecoveryFinfo} {recoverybytes : Nat}
    (h : finfoLength info = recoverybytes) : finfoBlock info recoverybytes = recoveryFinfotostr info := by
  unfold finfoLength at h
  unfold finfoBlock
  dsimp only
  rw [← h, Nat.sub_self, replicate_zero, List.append_nil]

theorem datastreamRecoveryinfo_spec (htype : r.sys.stream.type = .read) (hfr : r.sys.stream.Framed)
    (hat : r.sys.stream.At p) (hexc : r.sys.stream.excessoffset = p - r.sys.stream.cur.ftag.availbytes)
    (hhdl : ∀ i, r.sys.stream.datahandle = some i → r.InPlace i) (htgt : r.sys.stream.target 0 .cur = p)
    (hreach : r.sys.stream.Reaches p) (hmax : r.sys.stream.cur.ftag.availbytes < offMax)
    (havail : r.sys.stream.cur.ftag.availbytes ≤ r.sys.stream.cur.ftag.bytes) (hrec : Recorded finfo r)
    (hleads : r.sys.stream.Leads)
    (hlen : finfoLength (finfo r.sys.stream.objno) = r.sys.stream.cur.ftag.recoverybytes)
    (hcalls : r.sys.outcomes = []) (uninit : RecoveryFinfo) :
    wp (datastreamRecoveryinfo uninit) (fun info r' => info = finfo r.sys.stream.objno ∧
      r' = { freshHandle r with place := (r.sys.stream.positionOf p).offset }) (fun _ => False) r := by
  have hroom := hfr.room
  have hspans := hat.leads_spans hroom havail hleads
  obtain ⟨before, after, hobj, hbef⟩ := hrec.object _ hspans
  rw [finfoBlock_of_length hlen] at hobj
  have hprintable := hrec.printable _ hspans
  have hnsec := hrec.nsec _ hspans
  generalize finfo r.sys.stream.objno = info at *
  have hend : tgtoffset r.sys.stream.recoveryheaderlen (r.sys.stream.positionOf p) = before.length := by
    rw [hbef, Stream.tgtoffset_eq hfr hmax,
      hat.leads_dataEnd hroom hexc havail hleads]
  have hoff : r.sys.stream.offset ≤ before.length := hbef ▸ hat.offset_le hexc havail
  have hback := (hat.position_le hroom hexc).trans hoff
  have hchunk : r.sys.stream.chunk r.contents = before ++ recoveryFinfotostr info ++ after := by
    unfold Stream.chunk
    rw [hobj, Option.getD_some]
  have hobjects := fun place => (freshHandle_object htype place).trans hchunk
  -- the record is there, and nothing else is read
  have hread : ((before ++ recoveryFinfotostr info ++ after).drop before.length).take
      r.sys.stream.cur.ftag.recoverybytes = recoveryFinfotostr info := by
    unfold finfoLength at hlen
    rw [append_assoc, drop_left, ← hlen, take_left]
  have hcnt : r.sys.stream.cur.ftag.recoverybytes ≤ uintMax := by
    have hint : Recovery.intMax ≤ uintMax := by decide
    unfold finfoLength at hlen
    exact hlen ▸ hprintable.length.trans hint
  refine wp_bind.2 (wp_get.2 (wp_bind.2 (wp_check.2
    ⟨fun _ => ?_, fun hno => absurd htype (of_decide_eq_false hno)⟩)))
  refine wp_bind.2 (wp_gettargets.2 ⟨fun _ => ?_, fun hnot => hnot (htgt.symm ▸ hreach)⟩)
  rw [htgt, hend]
  refine wp_bind.2 (wp_openNeeded_of_nil hcalls htype hhdl (fun place _ => ?_)
    fun _ hnothing => ?_)
  swap
  · have hpos := finfoLength_pos info
    unfold finfoLength at hpos
    rw [hchunk, drop_eq_nil_iff, append_assoc, length_append,
      length_append] at hnothing
    omega
  refine wp_bind.2 (wp_seekTo_of_le rfl hcalls ?_ ?_)
  · rw [hobjects, append_assoc, length_append]
    omega
  refine wp_bind.2 (wp_neRead_of_nil rfl hcalls (fun _ => ?_) fun hno => absurd hcnt hno)
  dsimp only
  rw [hobjects, hread]
  have hpos : recoveryFinfotostr info ≠ [] := by
    have hpos := finfoLength_pos info
    unfold finfoLength at hpos
    exact ne_nil_of_length_pos hpos
  have hprs : finfofromBuffer (recoveryFinfotostr info ++ replicate
      (r.sys.stream.cur.ftag.recoverybytes - (recoveryFinfotostr info).length) '\x00') uninit =
      .done info := by
    unfold finfoLength at hlen
    rw [← hlen, Nat.sub_self, replicate_zero, List.append_nil]
    exact finfofromBuffer_printed hprintable hnsec uninit
  refine wp_bind.2 (wp_check.2 ⟨fun _ => ?_, fun hno => absurd hpos (of_decide_eq_false hno)⟩)
  refine wp_bind.2 (wp_bind.2 (wp_attempt.2 (wp_seekTo_of_le rfl hcalls ?_ ?_)))
  · rw [hobjects, append_assoc, length_append]
    omega
  · refine wp_ite.2 ⟨fun hnone => absurd hnone (by simp), fun _ => wp_pure.2 ?_⟩
    rw [hprs]
    exact wp_pure.2 ⟨rfl, rfl⟩

/-! ## The next read -/

theorem wp_closeOrFree_of_nil
    (hcalls : r.sys.outcomes = []) (hQ : ∀ closed, Q () { r with sys := { r.sys with
      closed := closed, stream := { r.sys.stream with datahandle := none } } }) :
    wp (onSys (closeCurrentObj.onFail freestream)) Q E r := by
  refine wp_onSys.2 (wp_onFail.2 (wp_bind.2 (wp_get.2 ?_)))
  cases hhdl : r.sys.stream.datahandle with
  | none =>
    have hsame : { r.sys.stream with datahandle := none } = r.sys.stream := by rw [← hhdl]
    have hdone := hQ r.sys.closed
    rw [hsame] at hdone
    exact wp_pure.2 hdone
  | some h =>
    refine wp_bind.2 (wp_outcome_of_nil hcalls (wp_bind.2 (wp_modify.2 (wp_modify.2 ?_))))
    exact hQ _

structure Ready (stream : Stream) (contents : List Char × List Char → Nat → Option (List Char))
    (r : Reader) : Prop where
  stream : ∃ handle, r.sys.stream = { stream with datahandle := handle }
  contents : r.contents = contents
  calls : r.sys.outcomes = []
  handle : ∀ i, r.sys.stream.datahandle = some i → r.InPlace i

section Ready

variable {stream : Stream} {contents : List Char × List Char → Nat → Option (List Char)}

def found (stream : Stream) : Stream := if stream.AtEnd then nextStream stream else stream

theorem Ready.findData (h : Ready stream contents r) (hhdr : stream.recoveryheaderlen ≤ stream.offset)
    (hin : stream.offset ≤ stream.recoveryheaderlen + stream.dataperobj) :
    wp (findData stream.dataperobj) (fun toread r' =>
      toread = stream.recoveryheaderlen + stream.dataperobj - (found stream).offset ∧
        Ready (found stream) contents r') (fun _ => False) r := by
  obtain ⟨⟨handle, hstr⟩, hcont, hcalls, hhdl⟩ := h
  obtain ⟨-, hleft⟩ := Stream.left_of_inside hhdr hin
  refine wp_bind.2 (wp_get.2 ?_)
  rw [hstr]
  dsimp only
  rw [hleft]
  refine wp_ite.2 ⟨fun hzero => ?_, fun hsome => ?_⟩
  · have hend : stream.AtEnd := by
      unfold Stream.AtEnd
      omega
    have hfound : found stream = nextStream stream := if_pos hend
    refine wp_bind.2 (wp_closeOrFree_of_nil hcalls fun closed => wp_bind.2 (wp_onSys.2
      (wp_modifyStream.2 (wp_pure.2 ⟨?_, ⟨none, ?_⟩, hcont, hcalls, fun i hi => ?_⟩))))
    · rw [hfound]
      exact (Nat.add_sub_cancel_left _ _).symm
    · rw [hfound, hstr]
      rfl
    · cases hi
  · have hend : ¬ stream.AtEnd := by
      unfold Stream.AtEnd
      omega
    have hfound : found stream = stream := if_neg hend
    rw [hfound]
    exact wp_pure.2 ⟨rfl, ⟨handle, hstr⟩, hcont, hcalls, hhdl⟩

def pieceOf (stream : Stream) (contents : List Char × List Char → Nat → Option (List Char))
    (toread : Nat) : List Char :=
  if toread ≤ uintMax then ((stream.chunk contents).drop stream.offset).take toread else []

theorem length_pieceOf (stream : Stream) (contents : List Char × List Char → Nat → Option (List Char))
    (toread : Nat) : (pieceOf stream contents toread).length ≤ toread := by
  unfold pieceOf
  split
  · exact length_take_le _ _
  · exact Nat.zero_le _

theorem Ready.readPiece (h : Ready stream contents r) (htype : stream.type = .read)
    (hend : ¬ stream.AtEnd) (toread : Nat) :
    wp (readPiece toread) (fun bytes r' => bytes = pieceOf stream contents toread ∧
      Ready { stream with offset := stream.offset + bytes.length } contents r') (fun _ => False) r := by
  obtain ⟨⟨handle, hstr⟩, hcont, hcalls, hhdl⟩ := h
  have hchunk : r.sys.stream.chunk r.contents = stream.chunk contents := by
    rw [hstr, hcont]
    rfl
  have hoff : r.sys.stream.offset = stream.offset := by rw [hstr]
  have hfresh : (freshHandle r).sys.stream = { stream with datahandle := some r.sys.stream.objno } := by
    unfold freshHandle
    rw [hstr]
  have htype' : r.sys.stream.type = .read := by
    rw [hstr]
    exact htype
  refine wp_bind.2 (wp_attempt.2 (wp_bind.2 (wp_openNeeded_of_nil hcalls htype' hhdl
    (fun place hplc => ?_) fun hnone hnothing owner place => ?_)))
  · have hplc : place = stream.offset := by
      rw [hstr] at hplc
      exact hplc hend
    have hobj := (freshHandle_object htype' place).trans hchunk
    refine wp_neRead_of_nil rfl hcalls (fun hcnt => ?_) fun hcnt => ?_
    · have hbytes : (((({ freshHandle r with place := place } : Reader).object
          r.sys.stream.objno).drop place).take toread) = pieceOf stream contents toread := by
        rw [hobj, hplc, pieceOf, if_pos hcnt]
      refine wp_bind.2 (wp_onSys.2 (wp_modifyStream.2 (wp_pure.2 ?_)))
      dsimp only [Option.getD_some]
      rw [hbytes]
      refine ⟨rfl, ⟨some r.sys.stream.objno, ?_⟩, hcont, hcalls, fun i hi => ?_⟩
      · exact congrArg (fun stream' : Stream => { stream' with
          offset := stream'.offset + (pieceOf stream contents toread).length }) hfresh
      · refine ⟨(Option.some.inj hi).symm, rfl, fun _ => ?_⟩
        exact congrArg (· + _) (hplc.trans hoff.symm)
    · have hpiece : pieceOf stream contents toread = [] := if_neg hcnt
      rw [hpiece]
      refine wp_bind.2 (wp_onSys.2 (wp_modifyStream.2 (wp_pure.2
        ⟨rfl, ⟨some r.sys.stream.objno, ?_⟩, hcont, hcalls, fun i hi => ?_⟩)))
      · exact hfresh
      · refine ⟨(Option.some.inj hi).symm, rfl, fun _ => ?_⟩
        exact hplc.trans hoff.symm
  · -- the object could not be opened, and has nothing for the stream
    have hpiece : pieceOf stream contents toread = [] := by
      rw [hchunk, hstr] at hnothing
      unfold pieceOf
      rw [hnothing, take_nil, ite_self]
    rw [hpiece]
    refine wp_bind.2 (wp_onSys.2 (wp_modifyStream.2 (wp_pure.2 ⟨rfl, ⟨handle, ?_⟩, hcont, hcalls,
      fun i hi => absurd (hnone.symm.trans hi) (by simp)⟩)))
    exact hstr

theorem found_inside (hroom : 0 < stream.dataperobj) (hhdr : stream.recoveryheaderlen ≤ stream.offset)
    (hin : stream.offset ≤ stream.recoveryheaderlen + stream.dataperobj) :
    stream.Alike (found stream) ∧ stream.recoveryheaderlen ≤ (found stream).offset ∧
      (found stream).offset < stream.recoveryheaderlen + stream.dataperobj := by
  unfold found
  split
  · exact ⟨⟨rfl, rfl, rfl, rfl⟩, le_rfl, Nat.lt_add_of_pos_right hroom⟩
  · next hend =>
    unfold Stream.AtEnd at hend
    exact ⟨Stream.Alike.refl _, hhdr, by omega⟩

theorem readLoop_determined (contents : List Char × List Char → Nat → Option (List Char))
    {dataperobj : Nat} (hroom : 0 < dataperobj) (fuel : Nat) : ∀ (stream : Stream) (count : Nat)
    (buf : List Char), stream.type = .read → stream.dataperobj = dataperobj →
    stream.recoveryheaderlen ≤ stream.offset →
    stream.offset ≤ stream.recoveryheaderlen + stream.dataperobj →
    ∃ result, ∀ r, Ready stream contents r → wp (readLoop dataperobj fuel count buf)
      (fun got _ => result = some got) (fun _ => result = none) r := by
  induction fuel with
  | zero => exact fun _ count buf _ _ _ _ => ⟨some (buf, count), fun _ _ => wp_pure.2 rfl⟩
  | succ fuel ih =>
    intro stream count buf htype hdata hhdr hin
    subst hdata
    by_cases hcnt : count = 0
    · exact ⟨some (buf, count), fun r _ =>
        wp_ite.2 ⟨fun _ => wp_pure.2 rfl, fun hne => absurd hcnt hne⟩⟩
    obtain ⟨halk, hhdr', hin'⟩ := found_inside hroom hhdr hin
    have hend : ¬ (found stream).AtEnd := by
      unfold Stream.AtEnd
      rw [halk.header, halk.dataperobj]
      omega
    -- what the first turn reads
    obtain ⟨toread, htoread⟩ : ∃ toread, toread =
        stream.recoveryheaderlen + stream.dataperobj - (found stream).offset := ⟨_, rfl⟩
    have hturn : ∀ r, Ready stream contents r → ∀ Q E,
        (∀ r', Ready { found stream with
            offset := (found stream).offset +
              (pieceOf (found stream) contents (min toread count)).length } contents r' →
          wp (if pieceOf (found stream) contents (min toread count) = [] then do
              Op.check (buf ≠ [])
              pure (buf, count)
            else readLoop stream.dataperobj fuel
              (count - (pieceOf (found stream) contents (min toread count)).length)
              (buf ++ pieceOf (found stream) contents (min toread count)) :
            Op Reader (List Char × Nat)) Q E r') →
        wp (readLoop stream.dataperobj (fuel + 1) count buf) Q E r := by
      intro r hr Q E hrest
      refine wp_ite.2 ⟨fun hzero => absurd hzero hcnt, fun _ => ?_⟩
      refine wp_bind.2 (wp_mono (hr.findData hhdr hin) ?_ fun _ h => h.elim)
      rintro _ r₁ ⟨rfl, hr₁⟩
      rw [← htoread]
      refine wp_bind.2 (wp_mono (hr₁.readPiece (halk.type.trans htype) hend _) ?_ fun _ h => h.elim)
      rintro _ r₂ ⟨rfl, hr₂⟩
      exact hrest r₂ hr₂
    have hlen := length_pieceOf (found stream) contents (min toread count)
    generalize hpiece : pieceOf (found stream) contents (min toread count) = piece at *
    by_cases hemp : piece = []
    · refine ⟨if buf ≠ [] then some (buf, count) else none, fun r hr => hturn r hr _ _ fun r' _ => ?_⟩
      refine wp_ite.2 ⟨fun _ => wp_bind.2 (wp_check.2 ⟨fun hbuf => wp_pure.2 ?_, fun hbuf => ?_⟩),
        fun hne => absurd hemp hne⟩
      · exact if_pos (of_decide_eq_true hbuf)
      · exact if_neg (of_decide_eq_false hbuf)
    · have hin'' : (found stream).offset + piece.length ≤
          (found stream).recoveryheaderlen + (found stream).dataperobj := by
        rw [halk.header, halk.dataperobj]
        omega
      obtain ⟨result, hres⟩ := ih
        { found stream with offset := (found stream).offset + piece.length } (count - piece.length)
        (buf ++ piece) (halk.type.trans htype) halk.dataperobj
        (halk.header ▸ hhdr'.trans (Nat.le_add_right _ _)) hin''
      refine ⟨result, fun r hr => hturn r hr _ _ fun r' hr' => ?_⟩
      exact wp_ite.2 ⟨fun hnil => absurd hnil hemp, fun _ => hres r' hr'⟩

theorem datastreamRead_determined (contents : List Char × List Char → Nat → Option (List Char))
    (htype : stream.type = .read) (hroom : 0 < stream.dataperobj)
    (hhdr : stream.recoveryheaderlen ≤ stream.offset)
    (hin : stream.offset ≤ stream.recoveryheaderlen + stream.dataperobj) (count : Nat) :
    ∃ result, ∀ r, Ready stream contents r →
      wp (datastreamRead count) (fun buf _ => result = some buf) (fun _ => result = none) r := by
  obtain ⟨streampos, hpos⟩ : ∃ streampos, streampos = stream.positionOf (stream.target 0 .cur) :=
    ⟨_, rfl⟩
  obtain ⟨toread, htoread⟩ : ∃ toread, toread =
      min count (streampos.dataremaining + streampos.excessremaining) := ⟨_, rfl⟩
  obtain ⟨zeros, hzeros⟩ : ∃ zeros, zeros = toread - streampos.dataremaining := ⟨_, rfl⟩
  obtain ⟨looped, hlooped⟩ := readLoop_determined contents hroom (toread - zeros) stream
    (toread - zeros) [] htype rfl hhdr hin
  refine ⟨if count < offMax ∧ stream.Reaches (stream.target 0 .cur) then looped.map fun got =>
    if got.2 = 0 then got.1 ++ replicate zeros '\x00' else got.1 else none, fun r h => ?_⟩
  obtain ⟨handle, hstr⟩ := h.stream
  have htype' : r.sys.stream.type = .read := by
    rw [hstr]
    exact htype
  have htgt : r.sys.stream.target 0 .cur = stream.target 0 .cur := by
    rw [hstr]
    rfl
  have hreaches : r.sys.stream.Reaches (stream.target 0 .cur) ↔
      stream.Reaches (stream.target 0 .cur) := by
    rw [hstr]
    exact Iff.rfl
  have hposition : r.sys.stream.positionOf (stream.target 0 .cur) = streampos := by
    rw [hpos, hstr]
    rfl
  have hdata : streampos.dataperobj = stream.dataperobj := by
    rw [hpos]
    rfl
  refine wp_bind.2 (wp_get.2 (wp_bind.2 (wp_check.2
    ⟨fun _ => ?_, fun hno => absurd htype' (of_decide_eq_false hno)⟩)))
  refine wp_bind.2 (wp_check.2 ⟨fun hcnt => ?_, fun hcnt => ?_⟩)
  swap
  · exact if_neg fun hyes => of_decide_eq_false hcnt hyes.1
  refine wp_bind.2 (wp_gettargets.2 ⟨fun hreach => ?_, fun hreach => ?_⟩)
  swap
  · rw [htgt, hreaches] at hreach
    exact if_neg fun hyes => hreach hyes.2
  rw [htgt, hreaches] at hreach
  rw [htgt, hposition, if_pos ⟨of_decide_eq_true hcnt, hreach⟩]
  dsimp only
  rw [← htoread, ← hzeros, hdata]
  refine wp_bind.2 (wp_mono (hlooped r h) ?_ ?_)
  · rintro ⟨buf, left⟩ r' rfl
    refine wp_ite.2 ⟨fun hleft => ?_, fun hleft => wp_pure.2 ?_⟩
    · refine wp_bind.2 (wp_onSys.2 (wp_modifyStream.2 (wp_pure.2 ?_)))
      rw [Option.map_some, if_pos hleft]
    · rw [Option.map_some, if_neg hleft]
  · rintro r' rfl
    rfl

end Ready

/-! ## Recovery info, at any position -/

/-- A file that was completed, and perhaps truncated since. -/
structure Completed (stream : Stream) : Prop where
  framed : stream.Framed
  avail : stream.cur.ftag.availbytes ≤ stream.cur.ftag.bytes
  size : stream.cur.ftag.availbytes ≤ stream.filesize
  max : stream.filesize < offMax

instance (stream : Stream) : Decidable (Completed stream) :=
  decidable_of_iff (stream.Framed ∧ stream.cur.ftag.availbytes ≤ stream.cur.ftag.bytes ∧
      stream.cur.ftag.availbytes ≤ stream.filesize ∧ stream.filesize < offMax)
    ⟨fun ⟨framed, avail, size, max⟩ => ⟨framed, avail, size, max⟩,
      fun h => ⟨h.framed, h.avail, h.size, h.max⟩⟩

def holder (r : Reader) : Nat := (r.sys.stream.positionOf (r.sys.stream.target 0 .cur)).objno

/-- `datastream_recoveryinfo` returns the record of the object that holds the position of the stream,
which it leaves where it is, and the next read returns what it would have returned. -/
structure Informs (finfo : Nat → RecoveryFinfo) (r : Reader) : Prop where
  info : ∀ uninit, (datastreamRecoveryinfo uninit r).1 = some (finfo r.holder)
  stream : ∀ uninit, (datastreamRecoveryinfo uninit r).2.sys.stream =
    { r.sys.stream with datahandle := some r.sys.stream.objno }
  next : ∀ uninit count, (datastreamRead count (datastreamRecoveryinfo uninit r).2).1 =
    (datastreamRead count r).1

/-- The stream is inside its object, the data that is available leads it to the record, and that fills
the room there is for it. -/
structure Finds (finfo : Nat → RecoveryFinfo) (r : Reader) : Prop where
  inside : ¬ r.sys.stream.AtEnd
  leads : r.sys.stream.Leads
  length : finfoLength (finfo r.sys.stream.objno) = r.sys.stream.cur.ftag.recoverybytes

theorem opened_browsed {target : Target} (hopen : opened .read pos path target contents outcomes = some r)
    (hfr : r.sys.stream.Framed) : r.sys.stream.type = .read ∧ Browsed r 0 r := by
  have hat := opened_at hopen hfr
  obtain ⟨stream, hstr, rfl⟩ := Option.map_eq_some_iff.1 hopen
  obtain ⟨ftag, blank, htype, hnone, -, hent⟩ := genExisting_spec hstr
  refine ⟨hent.type.trans htype, ⟨⟨Stream.Alike.refl _, hat⟩, ?_, rfl, fun i hi => ?_⟩,
    Nat.zero_le _⟩
  · exact hent.excess.trans (Nat.zero_sub _).symm
  · exact absurd ((hent.handle.trans hnone).symm.trans hi) (by simp)

theorem Recorded.synced (h : Recorded finfo r₀) (hsynced : Synced r₀ excess p r) : Recorded finfo r := by
  have halk := hsynced.reading.alike
  have hspans : ∀ i, r.sys.stream.Spans i ↔ r₀.sys.stream.Spans i := by
    intro i
    unfold Stream.Spans
    rw [halk.file, halk.dataperobj, halk.minoffset]
  have hend : ∀ bytes i, r.sys.stream.dataEnd bytes i = r₀.sys.stream.dataEnd bytes i := by
    intro bytes i
    unfold Stream.dataEnd
    rw [halk.file, halk.header, halk.dataperobj, halk.minoffset]
  refine ⟨fun i hi => h.printable i ((hspans i).1 hi), fun i hi => h.nsec i ((hspans i).1 hi),
    fun i hi => ?_⟩
  rw [halk.file, hsynced.contents, hend]
  exact h.object i ((hspans i).1 hi)

theorem Browsed.recoveryinfo (htype : r₀.sys.stream.type = .read) (hdone : Completed r₀.sys.stream)
    (hrec : Recorded finfo r₀) (h : Browsed r₀ p r) (hcalls : r.sys.outcomes = [])
    (hleads : r.sys.stream.Leads)
    (hlen : finfoLength (finfo r.sys.stream.objno) = r.sys.stream.cur.ftag.recoverybytes)
    (uninit : RecoveryFinfo) :
    ∃ r', datastreamRecoveryinfo uninit r = (some (finfo r.sys.stream.objno), r') ∧
      r'.sys.stream = { r.sys.stream with datahandle := some r.sys.stream.objno } ∧
      ∀ count, (datastreamRead count r').1 = (datastreamRead count r).1 := by
  obtain ⟨hsynced, hbound⟩ := h
  have halk := hsynced.reading.alike
  have hat := hsynced.reading.position
  have hfr := halk.framed hdone.framed
  have hmax := hdone.max
  have havail := hdone.avail
  have hsize := hdone.size
  have hexc : r.sys.stream.excessoffset = p - r.sys.stream.cur.ftag.availbytes := by
    rw [hsynced.excess, halk.file]
  have hreach : r.sys.stream.Reaches p := (halk.reaches p).2 ⟨hbound.trans_lt hmax, .inl hbound⟩
  rw [← halk.file] at havail hsize
  obtain ⟨_, r', hrun, rfl, rfl⟩ := wp_returns (datastreamRecoveryinfo_spec (halk.type.trans htype)
    hfr hat hexc hsynced.handle (Browsed.target hdone.framed hmax ⟨hsynced, hbound⟩) hreach
    (hsize.trans_lt hmax) havail (hrec.synced hsynced) hleads hlen hcalls uninit) fun _ h => h
  refine ⟨_, hrun, rfl, fun count => ?_⟩
  obtain ⟨result, hres⟩ := datastreamRead_determined r.contents (halk.type.trans htype)
    hfr.room hat.header hat.inside count
  have hrdy : Ready r.sys.stream r.contents r :=
    ⟨⟨r.sys.stream.datahandle, rfl⟩, rfl, hcalls, hsynced.handle⟩
  have hrdy' : Ready r.sys.stream r.contents
      { freshHandle r with place := (r.sys.stream.positionOf p).offset } := by
    refine ⟨⟨some r.sys.stream.objno, rfl⟩, rfl, hcalls, fun i hi => ?_⟩
    refine ⟨(Option.some.inj hi).symm, rfl, fun hend => ?_⟩
    exact (hat.position_inside hfr.room hexc hend).2
  exact (wp_fst (hres _ hrdy')).trans (wp_fst (hres r hrdy)).symm

theorem Browsed.holder_eq (hdone : Completed r₀.sys.stream) (h : Browsed r₀ p r) :
    r.holder = if r.sys.stream.AtEnd then r.sys.stream.objno + 1 else r.sys.stream.objno := by
  have halk := h.synced.reading.alike
  have hroom := (halk.framed hdone.framed).room
  have hexc : r.sys.stream.excessoffset = p - r.sys.stream.cur.ftag.availbytes := by
    rw [h.synced.excess, halk.file]
  unfold holder
  rw [h.target hdone.framed hdone.max]
  split
  · next hend => exact (h.synced.reading.position.position_end hroom hexc hend).1
  · next hend => exact (h.synced.reading.position.position_inside hroom hexc hend).1

/-- Wherever a client has brought its stream, recovery info is found there if the stream is inside an
object and the available data of the file leads to the record. -/
theorem browsed_informs {target : Target} (hopen : opened .read pos path target contents outcomes = some r₀)
    (hcompleted : Completed r₀.sys.stream) (hrecorded : Recorded finfo r₀)
    (hrun : Relation.ReflTransGen Browses r₀ r) (hlive : r.sys.live = true) (hcalls : r.sys.outcomes = [])
    (hfinds : Finds finfo r) : Informs finfo r := by
  obtain ⟨htype, hstart⟩ := opened_browsed hopen hcompleted.framed
  obtain ⟨p, h⟩ := (hstart.run htype hcompleted.framed hcompleted.max hcompleted.size
    hrun).resolve_left (by simp [hlive])
  have hholder : r.holder = r.sys.stream.objno := by
    rw [h.holder_eq hcompleted, if_neg hfinds.inside]
  have hinfo := h.recoveryinfo htype hcompleted hrecorded hcalls hfinds.leads hfinds.length
  refine ⟨fun uninit => ?_, fun uninit => ?_, fun uninit count => ?_⟩
  · obtain ⟨r', hrun, -, -⟩ := hinfo uninit
    rw [hrun, hholder]
  · obtain ⟨r', hrun, hstream, -⟩ := hinfo uninit
    rw [hrun]
    exact hstream
  · obtain ⟨r', hrun, -, hnext⟩ := hinfo uninit
    rw [hrun]
    exact hnext count

def twoObjectsInfo (i : Nat) : RecoveryFinfo :=
  { sampleStat.finfo (if i = 0 then 105 else 150) ['a'] with eof := decide (i ≠ 0) }

def twoObjectsContent (i : Nat) : List Char :=
  twoObjects.stream.header ++ replicate (if i = 0 then 105 else 45) 'x' ++
    finfoBlock (twoObjectsInfo i) 103

theorem twoObjectsInfo_printable (i : Nat) (hi : i < 2) : (twoObjectsInfo i).Printable := by
  have hlen : ∀ i < 2, (recoveryFinfotostr (twoObjectsInfo i)).length ≤ Recovery.intMax := by
    decide +kernel
  have hsize : ∀ i < 2, (twoObjectsInfo i).size ≤ ullongMax := by decide
  refine ⟨?_, ?_, Nat.zero_le _, Nat.zero_le _, hsize i hi, Nat.zero_le _, Nat.zero_le _, ?_,
    hlen i hi⟩
  · change 1 ≤ ullongMax
    decide
  · change 420 ≤ FinfoValue.mode.max
    decide
  · change '\x00' ∉ ['a']
    decide

theorem twoObjects_recorded : ∃ r, readerOf twoObjects 0 = some r ∧ Completed r.sys.stream ∧
    Recorded twoObjectsInfo r := by
  have hfile : (readerOf twoObjects 0).all (fun r => decide (Completed r.sys.stream) &&
      decide (r.sys.stream.cur.ftag.objno = 0 ∧ r.sys.stream.dataperobj = 105 ∧
        r.sys.stream.minoffset = 0 ∧ r.sys.stream.cur.ftag.bytes = 150 ∧
        r.sys.stream.cur.ftag.recoverybytes = 103)) = true := by decide +kernel
  have hobjects : (readerOf twoObjects 0).all (fun r => decide (∀ i < 2,
      r.contents (r.sys.stream.cur.ftag.ctag, r.sys.stream.cur.ftag.streamid) i =
        some (twoObjectsContent i) ∧
      (twoObjects.stream.header ++ replicate (if i = 0 then 105 else 45) 'x').length =
        r.sys.stream.dataEnd 150 i)) = true := by decide +kernel
  obtain ⟨r, hr⟩ : ∃ r, readerOf twoObjects 0 = some r :=
    Option.isSome_iff_exists.1 (by decide +kernel)
  rw [hr, Option.all_some] at hobjects hfile
  rw [Bool.and_eq_true] at hfile
  obtain ⟨hobj, hdata, hmin, hbytes, hrecovery⟩ := of_decide_eq_true hfile.2
  have hspans : ∀ i, r.sys.stream.Spans i → i < 2 := by
    intro i hi
    unfold Stream.Spans at hi
    rw [hobj, hdata, hmin, hbytes] at hi
    omega
  refine ⟨r, hr, of_decide_eq_true hfile.1, fun i hi => ?_, fun i _ => ?_, fun i hi => ?_⟩
  · exact twoObjectsInfo_printable i (hspans i hi)
  · exact Nat.zero_le _
  · obtain ⟨hcont, hend⟩ := of_decide_eq_true hobjects i (hspans i hi)
    rw [hbytes, hrecovery]
    refine ⟨_, [], ?_, hend⟩
    rw [List.append_nil]
    exact hcont

/-- In the second object of a file, its record is found. -/
theorem twoObjects_informs : ∃ r₀, readerOf twoObjects 0 = some r₀ ∧
    Informs twoObjectsInfo (datastreamRead 5 (datastreamSeek 120 .set r₀).2).2 := by
  obtain ⟨r₀, hr₀, hcompleted, hrecorded⟩ := twoObjects_recorded
  have hsought : (readerOf twoObjects 0).all (fun r =>
      let r' := (datastreamSeek 120 .set r).2
      let r'' := (datastreamRead 5 r').2
      r.sys.live && r'.sys.live && r''.sys.live && decide (r''.sys.outcomes = []) &&
        decide (r''.sys.stream.objno = 1 ∧ r''.sys.stream.cur.ftag.objno = 0 ∧
          r''.sys.stream.dataperobj = 105 ∧ r''.sys.stream.minoffset = 0 ∧
          r''.sys.stream.cur.ftag.availbytes = 150 ∧ r''.sys.stream.cur.ftag.bytes = 150 ∧
          r''.sys.stream.cur.ftag.recoverybytes = 103 ∧ ¬ r''.sys.stream.AtEnd)) = true := by
    decide +kernel
  rw [hr₀, Option.all_some] at hsought
  simp only [Bool.and_eq_true, decide_eq_true_eq] at hsought
  obtain ⟨⟨⟨⟨hlive, hlive'⟩, hlive''⟩, hcalls⟩, hobjno, hfirst, hdata, hmin, havail, hbytes, hrecovery,
    hend⟩ := hsought
  refine ⟨r₀, hr₀, browsed_informs hr₀ hcompleted hrecorded ?_ hlive'' hcalls ⟨hend, ?_, ?_⟩⟩
  · exact .tail (.tail .refl ⟨hlive, .inl ⟨120, .set, rfl⟩⟩) ⟨hlive', .inr ⟨5, rfl⟩⟩
  · unfold Stream.Leads Stream.Spans
    rw [if_neg hend, hobjno, hfirst, hdata, hmin, havail, hbytes]
    exact .inr ⟨rfl, .inr ⟨by decide, by decide⟩⟩
  · rw [hobjno, hrecovery]
    decide +kernel

/-- Where the first object was read to its end, nothing is found, although the second one has a record
and a seek to where the stream is finds it. -/
theorem twoObjects_uninformed : ∃ r₀ r, readerOf twoObjects 0 = some r₀ ∧ Completed r₀.sys.stream ∧
    Recorded twoObjectsInfo r₀ ∧ Relation.ReflTransGen Browses r₀ r ∧ r.sys.live = true ∧
    r.sys.outcomes = [] ∧ ¬ Informs twoObjectsInfo r := by
  obtain ⟨r₀, hr₀, hcompleted, hrecorded⟩ := twoObjects_recorded
  have hread : (readerOf twoObjects 0).all (fun r =>
      let r' := (datastreamRead 105 r).2
      r.sys.live && r'.sys.live && decide (r'.sys.outcomes = []) &&
        (datastreamRecoveryinfo (twoObjectsInfo 0) r').1.isNone) = true := by decide +kernel
  rw [hr₀, Option.all_some] at hread
  simp only [Bool.and_eq_true, decide_eq_true_eq] at hread
  obtain ⟨⟨⟨hlive, hlive'⟩, hcalls⟩, hnone⟩ := hread
  refine ⟨r₀, _, hr₀, hcompleted, hrecorded, .single ⟨hlive, .inr ⟨105, rfl⟩⟩, hlive', hcalls,
    fun h => ?_⟩
  rw [h.info] at hnone
  cases hnone

end Reader

end Marfs.Datastream
