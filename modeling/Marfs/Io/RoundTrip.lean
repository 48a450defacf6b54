import Marfs.Io.Framing

/-!
# Reading a block back

A reader takes up the pieces of a block in order, each with the CRC it was stored with, and pushes
ioblocks of whole parts.  With the limits of the queues as they are computed, a block is read back as it was
written exactly when none of their sums wraps and the number of parts is positive.
-/

namespace Marfs.Io

open Marfs.Machine List

/-! ## The pieces a reader takes up -/

def Reader.held (reader : Reader) : List UInt8 := reader.iob.elim [] Ioblock.data

structure Reading (crc : Crc) (size : Nat) (minfo : MetaInfo) (pieces : List (List UInt8))
    (reader : Reader) (seen rest : List (List UInt8)) : Prop where
  pieces_eq : pieces = seen ++ rest
  cut : Pieces size pieces
  minfo : minfo = ⟨size + crcBytes, (framed crc pieces).length, crcSum crc pieces⟩
  offset : reader.offset = (framed crc seen).length
  crcsumchk : reader.crcsumchk = crcSum crc seen
  dataError : reader.dataError = false
  errorEnd : ∀ iob, reader.iob = some iob → iob.errorEnd = 0

structure ReadQueue (ioq : Ioqueue) (size partsz : Nat) : Prop where
  pos : 0 < ioq.splitThreshold
  parts : partsz ∣ ioq.splitThreshold
  blocksz : ioq.blocksz = ioq.splitThreshold + crcBytes + size

section Read

variable {crc : Crc} {ioq : Ioqueue} {size partsz : Nat} {minfo : MetaInfo} {reader : Reader}
  {pieces seen rest : List (List UInt8)} {piece : List UInt8}

theorem blockGet_frame (before after : List UInt8) :
    blockGet (before ++ (frame crc piece ++ after)) (piece.length + crcBytes) before.length =
      (piece.length + crcBytes, frame crc piece) := by
  have htake : ((before ++ (frame crc piece ++ after)).drop before.length).take
      (piece.length + crcBytes) = frame crc piece := by
    rw [drop_left, ← frame_length crc piece, take_left]
  rw [blockGet, htake, frame_length, Nat.sub_self, replicate_zero, List.append_nil]

theorem Reading.toRead (h : Reading crc size minfo pieces reader seen (piece :: rest)) :
    min minfo.versz (minfo.blocksz - reader.offset) = piece.length + crcBytes := by
  have hmem : piece ∈ pieces := by
    rw [h.pieces_eq]
    exact mem_append_right _ mem_cons_self
  have hbound := h.cut.bound piece hmem
  have hleft : minfo.blocksz - reader.offset =
      piece.length + crcBytes + (framed crc rest).length := by
    rw [h.minfo, h.offset, h.pieces_eq]
    dsimp only
    rw [framed_append, framed_cons, length_append, length_append, frame_length]
    omega
  have hvsz : minfo.versz = size + crcBytes := by rw [h.minfo]
  rw [hleft, hvsz]
  cases rest with
  | nil =>
    rw [framed_nil, length_nil]
    omega
  | cons next rest =>
    have hpcs := h.cut
    rw [h.pieces_eq] at hpcs
    have hfull := hpcs.cons (cons_ne_nil _ _)
    omega

theorem Reading.step (h : Reading crc size minfo pieces reader seen (piece :: rest)) (ioq : Ioqueue)
    (cur : Ioblock) (hcur : cur.errorEnd = 0)
    (hroom : cur.data.length + (piece.length + crcBytes) ≤ ioq.blocksz) :
    ∃ reader', readIo crc (blockGet (framed crc pieces)) ioq reader cur (piece.length + crcBytes) =
        some reader' ∧ reader'.iob = some ⟨cur.data ++ piece, 0⟩ ∧
      Reading crc size minfo pieces reader' (seen ++ [piece]) rest := by
  have hmem : piece ∈ pieces := by
    rw [h.pieces_eq]
    exact mem_append_right _ mem_cons_self
  have hpos := (h.cut.bound piece hmem).1
  have hget : blockGet (framed crc pieces) (piece.length + crcBytes) reader.offset =
      (piece.length + crcBytes, frame crc piece) := by
    rw [h.pieces_eq, framed_append, framed_cons, h.offset]
    exact blockGet_frame _ _
  have hdata : (frame crc piece).take (piece.length + crcBytes - crcBytes) = piece := by
    rw [Nat.add_sub_cancel, frame, take_left]
  have hcrc : readLe (((frame crc piece).drop (piece.length + crcBytes - crcBytes)).take crcBytes) =
      (crc piece).toNat := by
    rw [Nat.add_sub_cancel, frame, drop_left,
      take_of_length_le (by rw [leBytes_length]), readLe_leBytes]
    exact UInt32.toNat_lt _
  have hread : readIo crc (blockGet (framed crc pieces)) ioq reader cur (piece.length + crcBytes) =
      some { reader with
        offset := reader.offset + (piece.length + crcBytes)
        iob := some ⟨cur.data ++ piece, 0⟩
        crcsumchk := reader.crcsumchk + (crc piece).toNat
        dataError := reader.dataError } := by
    unfold readIo
    rw [if_neg (by omega), if_neg (by omega), hget]
    simp only [hdata, hcrc, Nat.lt_irrefl, ne_eq, not_true, or_self, decide_false, Bool.or_false,
      if_false, Ioblock.updateFill, Bool.false_eq_true, hcur]
  refine ⟨_, hread, rfl, ⟨?_, h.cut, h.minfo, ?_, ?_, h.dataError, ?_⟩⟩
  · rw [h.pieces_eq, append_assoc]
    rfl
  · rw [framed_append, length_append, framed_cons, framed_nil, List.append_nil, frame_length,
      ← h.offset]
  · rw [crcSum_append, crcSum_singleton, ← h.crcsumchk]
  · intro iob hiob
    rw [← Option.some.inj hiob]

theorem Reading.reserve_room (h : Reading crc size minfo pieces reader seen rest)
    (hroom : reader.held.length < ioq.splitThreshold) :
    reserveIoblock ioq reader.iob = some (⟨reader.held, 0⟩, none) := by
  obtain ⟨offset, iob, crcsumchk, continuous, dataError, metaError⟩ := reader
  cases iob with
  | none => rfl
  | some prev =>
    obtain ⟨data, errorEnd⟩ := prev
    obtain rfl : errorEnd = 0 := h.errorEnd _ rfl
    exact if_pos hroom

theorem Reading.reserve_full (h : Reading crc size minfo pieces reader seen rest)
    (hioq : ReadQueue ioq size partsz) (hfull : ¬reader.held.length < ioq.splitThreshold)
    (hheld : reader.held.length ≤ ioq.blocksz) :
    reserveIoblock ioq reader.iob = some (⟨reader.held.drop ioq.splitThreshold, 0⟩,
      some ⟨reader.held.take ioq.splitThreshold, 0⟩) := by
  obtain ⟨offset, iob, crcsumchk, continuous, dataError, metaError⟩ := reader
  cases iob with
  | none => exact absurd hioq.pos hfull
  | some prev =>
    obtain ⟨data, errorEnd⟩ := prev
    obtain rfl : errorEnd = 0 := h.errorEnd _ rfl
    have hfull' : ¬data.length < ioq.splitThreshold := hfull
    have hover : ¬(data.length > ioq.splitThreshold ∧ data.length > ioq.blocksz) := fun hover =>
      absurd hheld (Nat.not_le_of_lt hover.2)
    have hjunk : ¬(data.length > ioq.splitThreshold ∧ 0 > ioq.splitThreshold) := fun hjunk =>
      absurd hjunk.2 (Nat.not_lt_zero _)
    rw [reserveIoblock]
    dsimp only
    rw [if_neg hfull', if_neg hover, if_neg hjunk]
    rfl

theorem Reading.hold (h : Reading crc size minfo pieces reader seen rest) {iob : Option Ioblock}
    (hiob : ∀ block, iob = some block → block.errorEnd = 0) :
    Reading crc size minfo pieces { reader with iob := iob } seen rest :=
  ⟨h.pieces_eq, h.cut, h.minfo, h.offset, h.crcsumchk, h.dataError, hiob⟩

theorem Reading.offset_le (h : Reading crc size minfo pieces reader seen rest) :
    reader.offset + (framed crc rest).length = minfo.blocksz := by
  rw [h.offset, h.minfo, h.pieces_eq]
  dsimp only
  rw [framed_append, length_append]

structure Pushes (crc : Crc) (ioq : Ioqueue) (size : Nat) (minfo : MetaInfo)
    (pieces : List (List UInt8)) (content : List UInt8) (push : Ioblock) (reader : Reader)
    (seen rest : List (List UInt8)) : Prop where
  reading : Reading crc size minfo pieces reader seen rest
  content_eq : content = push.data ++ (reader.held ++ rest.flatten)
  pos : 0 < push.data.length
  errorEnd : push.errorEnd = 0
  held_le : reader.held.length ≤ ioq.blocksz
  whole : push.data.length = ioq.splitThreshold ∨ reader.held ++ rest.flatten = []

variable {fuel : Nat}

theorem Reading.loop (hioq : ReadQueue ioq size partsz) (h : Reading crc size minfo pieces reader seen rest)
    (hheld : reader.held.length ≤ ioq.blocksz) (hsome : rest = [] → reader.held ≠ [])
    (hfuel : rest.length < fuel) :
    ∃ push reader' seen' rest',
      readLoop crc (blockGet (framed crc pieces)) ioq minfo fuel reader = some (push, reader') ∧
        Pushes crc ioq size minfo pieces (reader.held ++ rest.flatten) push reader' seen' rest' := by
  induction fuel generalizing reader seen rest with
  | zero => exact absurd hfuel (Nat.not_lt_zero _)
  | succ fuel ih =>
    rw [readLoop]
    by_cases hroom : reader.held.length < ioq.splitThreshold
    · rw [h.reserve_room hroom]
      dsimp only
      cases rest with
      | nil =>
        have hend : min minfo.versz (minfo.blocksz - reader.offset) = 0 := by
          have hoff := h.offset_le
          rw [framed_nil, length_nil] at hoff
          omega
        rw [if_pos hend]
        refine ⟨_, _, seen, [], rfl, h.hold nofun, ?_, length_pos_of_ne_nil (hsome rfl), rfl,
          Nat.zero_le _, Or.inr rfl⟩
        rfl
      | cons piece rest =>
        have hmem : piece ∈ pieces := by
          rw [h.pieces_eq]
          exact mem_append_right _ mem_cons_self
        obtain ⟨hpos, hle⟩ := h.cut.bound piece hmem
        have hbsz := hioq.blocksz
        rw [h.toRead, if_neg (by omega)]
        obtain ⟨next, hnext, hiob, hread⟩ := h.step ioq ⟨reader.held, 0⟩ rfl
          (by dsimp only; omega)
        rw [hnext]
        have hheld' : next.held = reader.held ++ piece := by
          rw [Reader.held, hiob]
          rfl
        have hlen : next.held.length = reader.held.length + piece.length := by
          rw [hheld', length_append]
        obtain ⟨push, reader', seen', rest', hloop, hpushes⟩ := ih hread (by omega)
          (fun _ hnil => by rw [hnil, length_nil] at hlen; omega) (Nat.lt_of_succ_lt_succ hfuel)
        refine ⟨push, reader', seen', rest', hloop, ?_⟩
        rw [hheld', append_assoc] at hpushes
        exact hpushes
    · rw [h.reserve_full hioq hroom hheld]
      refine ⟨_, _, seen, rest, rfl, h.hold ?_, ?_, ?_, rfl, ?_, Or.inl ?_⟩
      · intro block hblock
        rw [← Option.some.inj hblock]
      · dsimp only [Reader.held]
        rw [← append_assoc]
        exact congrArg (· ++ rest.flatten) (take_append_drop _ _).symm
      · have hpos := hioq.pos
        rw [length_take]
        omega
      · have hdrop : (reader.held.drop ioq.splitThreshold).length ≤ reader.held.length := by
          rw [length_drop]
          omega
        exact hdrop.trans hheld
      · rw [length_take]
        omega

theorem Reading.finish (h : Reading crc size minfo pieces reader seen rest)
    (hend : reader.offset ≥ minfo.blocksz) : rest = [] ∧ reader.crcsumchk = minfo.crcsum := by
  have hoff := h.offset_le
  have hlen := length_le_framed crc rest
  have hrest : rest = [] := List.length_eq_zero_iff.1 (by omega)
  refine ⟨hrest, ?_⟩
  rw [h.crcsumchk, h.minfo, h.pieces_eq, hrest, List.append_nil]

theorem Reading.produce (hioq : ReadQueue ioq size partsz)
    (h : Reading crc size minfo pieces reader seen rest) (hheld : reader.held.length ≤ ioq.blocksz) :
    (reader.held ++ rest.flatten = [] ∧ ∃ reader',
      readProduce crc (blockGet (framed crc pieces)) ioq minfo reader = some (.finished, reader') ∧
        reader'.dataError = false) ∨
    ∃ push reader' seen' rest',
      readProduce crc (blockGet (framed crc pieces)) ioq minfo reader = some (.block push, reader') ∧
        Pushes crc ioq size minfo pieces (reader.held ++ rest.flatten) push reader' seen' rest' := by
  rw [readProduce]
  by_cases hend : reader.offset ≥ minfo.blocksz
  · obtain ⟨rfl, hsum⟩ := h.finish hend
    have hmatch : ¬(reader.dataError = false ∧ reader.continuous = true ∧ reader.metaError = false ∧
        reader.crcsumchk ≠ minfo.crcsum) := fun hmismatch => hmismatch.2.2.2 hsum
    rw [if_pos hend]
    simp only [decide_eq_false hmatch, Bool.or_false]
    cases hiob : reader.iob with
    | none =>
      left
      refine ⟨?_, _, rfl, h.dataError⟩
      rw [Reader.held, hiob]
      rfl
    | some iob =>
      have hheld' : reader.held = iob.data := by
        rw [Reader.held, hiob]
        rfl
      by_cases hemp : iob.data.length ≠ 0
      · right
        refine ⟨iob, { reader with iob := none }, seen, [], ?_, h.hold nofun, ?_,
          Nat.pos_of_ne_zero hemp, h.errorEnd iob hiob, Nat.zero_le _, Or.inr rfl⟩
        · simp only [if_pos hemp]
        · rw [hheld']
          rfl
      · left
        dsimp only
        rw [if_neg hemp]
        refine ⟨?_, _, rfl, h.dataError⟩
        rw [hheld', List.length_eq_zero_iff.1 (not_not.1 hemp)]
        rfl
  · right
    have hsome : rest = [] → reader.held ≠ [] := by
      rintro rfl
      have hoff := h.offset_le
      rw [framed_nil, length_nil] at hoff
      omega
    have hfuel : rest.length < minfo.blocksz - reader.offset + 1 := by
      have hoff := h.offset_le
      have hlen := length_le_framed crc rest
      omega
    obtain ⟨push, reader', seen', rest', hloop, hpushes⟩ := h.loop hioq hheld hsome hfuel
    refine ⟨push, reader', seen', rest', ?_, hpushes⟩
    rw [if_neg hend, hloop]
    rfl

theorem Reading.all (hioq : ReadQueue ioq size partsz) (h : Reading crc size minfo pieces reader seen rest)
    (hheld : reader.held.length ≤ ioq.blocksz) (hparts : partsz ∣ (reader.held ++ rest.flatten).length)
    (hfuel : (reader.held ++ rest.flatten).length < fuel) :
    ∃ blocks reader',
      readAll crc (blockGet (framed crc pieces)) ioq minfo fuel reader = some (blocks, reader') ∧
        reader'.dataError = false ∧ (blocks.map Ioblock.data).flatten = reader.held ++ rest.flatten ∧
        ∀ block ∈ blocks, 0 < block.data.length ∧ partsz ∣ block.data.length ∧ block.errorEnd = 0 := by
  induction fuel generalizing reader seen rest with
  | zero => exact absurd hfuel (Nat.not_lt_zero _)
  | succ fuel ih =>
    rw [readAll]
    rcases h.produce hioq hheld with ⟨hnil, reader', hprod, herror⟩ |
      ⟨push, reader', seen', rest', hprod, hpushes⟩
    · rw [hprod, hnil]
      exact ⟨[], reader', rfl, herror, rfl, fun block hblock => absurd hblock not_mem_nil⟩
    · rw [hprod]
      obtain ⟨hread, hcont, hpos, herror, hheld', hwhl⟩ := hpushes
      have hlen : (reader.held ++ rest.flatten).length =
          push.data.length + (reader'.held ++ rest'.flatten).length := by
        rw [hcont, length_append]
      have hdvd : partsz ∣ push.data.length := by
        rcases hwhl with hspl | hnil
        · exact hspl ▸ hioq.parts
        · rw [hnil, length_nil, Nat.add_zero] at hlen
          exact hlen ▸ hparts
      have hparts' : partsz ∣ (reader'.held ++ rest'.flatten).length := by
        rw [hlen] at hparts
        exact (Nat.dvd_add_right hdvd).1 hparts
      obtain ⟨blocks, last, hall, hlast, hdata, hblk⟩ := ih hread hheld' hparts' (by omega)
      refine ⟨push :: blocks, last, ?_, hlast, ?_, ?_⟩
      · dsimp only
        rw [hall]
        rfl
      · rw [map_cons, flatten_cons, hdata, ← hcont]
      · intro block hblock
        rcases List.mem_cons.1 hblock with rfl | hmem
        · exact ⟨hpos, hdvd, herror⟩
        · exact hblk block hmem

end Read

/-! ## The result -/

/-- What is asked of the blocks of one I/O size and one part size: every block of whole parts is stored in
chunks of at most one I/O, and a fresh reader gets its data back in ioblocks of whole parts. -/
def RoundTrips (crc : Crc) (versz partsz : Nat) : Prop :=
  ∃ wioq rioq, createIoqueue versz partsz .write = some wioq ∧
    createIoqueue versz partsz .read = some rioq ∧
    ∀ parts : List (List UInt8), (∀ part ∈ parts, part.length = partsz) →
      ∃ writer, writeBlock crc wioq versz parts = some writer ∧
        (∀ chunk ∈ writer.stored, chunk.length ≤ versz) ∧
        (∀ chunk ∈ writer.stored.dropLast, chunk.length = versz) ∧
        writer.minfo.blocksz = (writer.stored.map List.length).sum ∧
        ∃ fuel blocks reader,
          readAll crc (blockGet writer.stored.flatten) rioq writer.minfo fuel Reader.init =
              some (blocks, reader) ∧
            reader.dataError = false ∧ (blocks.map Ioblock.data).flatten = parts.flatten ∧
            ∀ block ∈ blocks, 0 < block.data.length ∧ partsz ∣ block.data.length ∧ block.errorEnd = 0

/-- The sizes of the buffers can be represented, and so can the number of parts in one I/O, as a positive
`int`. -/
def Fits (versz partsz : Nat) : Prop :=
  versz + partsz < SizeT.modulus ∧
    (versz - crcBytes < partsz ∨
      0 < toInt ((versz - crcBytes) / partsz) ∧
        (toInt ((versz - crcBytes) / partsz)).toNat * partsz + versz < SizeT.modulus)

section Result

variable {crc : Crc} {versz partsz : Nat}

theorem ofInt_toNat {i : Int} (hpos : 0 ≤ i) (hlt : i.toNat < SizeT.modulus) : ofInt i = i.toNat := by
  rw [ofInt, Int.emod_eq_of_lt hpos (by omega)]

theorem toInt_le (n : Nat) : toInt n ≤ n ∧ -toInt n ≤ n := by
  unfold toInt
  dsimp only
  split_ifs <;> omega

theorem wrap_wrap_add (a b : Nat) : SizeT.wrap (SizeT.wrap a + b) = SizeT.wrap (a + b) := by
  rw [SizeT.wrap, SizeT.wrap, SizeT.wrap, Nat.mod_add_mod]

theorem createIoqueue_write (hvsz : crcBytes < versz) (hpsz : 0 < partsz) :
    ∃ ioq, createIoqueue versz partsz .write = some ioq ∧ ioq.splitThreshold = versz - crcBytes ∧
      ioq.blocksz = SizeT.wrap (versz + partsz) := by
  rw [createIoqueue, if_neg (Nat.not_le_of_lt hvsz), if_neg hpsz.ne']
  refine ⟨_, rfl, rfl, ?_⟩
  dsimp only
  rw [wrap_wrap_add, if_neg (by decide), if_neg (by decide), Nat.sub_add_cancel hvsz.le]

def partCount (versz partsz : Nat) : Int :=
  if partsz > versz - crcBytes then 1 else toInt ((versz - crcBytes) / partsz)

theorem createIoqueue_read (hvsz : crcBytes < versz) (hpsz : 0 < partsz) :
    ∃ ioq, createIoqueue versz partsz .read = some ioq ∧
      ioq.splitThreshold = SizeT.wrap (ofInt (partCount versz partsz) * partsz) ∧
      ioq.blocksz = SizeT.wrap (ioq.splitThreshold + versz) := by
  rw [createIoqueue, if_neg (Nat.not_le_of_lt hvsz), if_neg hpsz.ne']
  refine ⟨_, rfl, rfl, ?_⟩
  dsimp only
  rw [wrap_wrap_add, if_pos rfl, if_pos rfl, Nat.add_assoc, Nat.add_sub_cancel' hvsz.le]

variable {ioq : Ioqueue} {size : Nat} {pieces : List (List UInt8)}

theorem readQueue_of_fits (hvsz : crcBytes < versz) (hpsz : 0 < partsz) (hfits : Fits versz partsz)
    (hspl : ioq.splitThreshold = SizeT.wrap (ofInt (partCount versz partsz) * partsz))
    (hbsz : ioq.blocksz = SizeT.wrap (ioq.splitThreshold + versz)) :
    ReadQueue ioq (versz - crcBytes) partsz := by
  obtain ⟨hsum, hcnt⟩ := hfits
  have hpositive : 0 < partCount versz partsz ∧
      (partCount versz partsz).toNat * partsz + versz < SizeT.modulus := by
    rw [partCount]
    split_ifs with hone
    · rw [Int.toNat_one, Nat.one_mul, Nat.add_comm]
      exact ⟨Int.one_pos, hsum⟩
    · exact hcnt.resolve_left hone
  obtain ⟨hpos, hlt⟩ := hpositive
  have hnat : 0 < (partCount versz partsz).toNat := Int.pos_iff_toNat_pos.1 hpos
  have hle := Nat.le_mul_of_pos_right (partCount versz partsz).toNat hpsz
  rw [ofInt_toNat hpos.le (by omega), SizeT.wrap_of_lt (by omega)] at hspl
  rw [hspl, SizeT.wrap_of_lt hlt] at hbsz
  refine ⟨?_, ?_, ?_⟩
  · rw [hspl]
    exact Nat.mul_pos hnat hpsz
  · rw [hspl]
    exact Nat.dvd_mul_left _ _
  · rw [hbsz, hspl]
    omega

theorem writeQueue_of_lt (hvsz : crcBytes < versz) (hsum : versz + partsz < SizeT.modulus)
    (hspl : ioq.splitThreshold = versz - crcBytes) (hbsz : ioq.blocksz = SizeT.wrap (versz + partsz)) :
    WriteQueue ioq (versz - crcBytes) partsz := by
  rw [SizeT.wrap_of_lt hsum] at hbsz
  exact ⟨Nat.sub_pos_of_lt hvsz, hspl, by rw [hbsz, Nat.sub_add_cancel hvsz.le]⟩

theorem flatten_length {parts : List (List UInt8)} (h : ∀ part ∈ parts, part.length = partsz) :
    parts.flatten.length = parts.length * partsz := by
  induction parts with
  | nil => rw [flatten_nil, length_nil, length_nil, Nat.zero_mul]
  | cons part parts ih =>
    rw [flatten_cons, length_append, h part mem_cons_self,
      ih fun p hp => h p (mem_cons_of_mem part hp), length_cons, Nat.succ_mul, Nat.add_comm]

theorem reading_init (crc : Crc) (hcut : Pieces size pieces) :
    Reading crc size ⟨size + crcBytes, (framed crc pieces).length, crcSum crc pieces⟩ pieces Reader.init
      [] pieces :=
  ⟨rfl, hcut, rfl, rfl, rfl, rfl, nofun⟩

theorem roundTrips_of_fits (hvsz : crcBytes < versz) (hpsz : 0 < partsz) (hfits : Fits versz partsz) :
    RoundTrips crc versz partsz := by
  obtain ⟨wioq, hwioq, hwsplit, hwblocksz⟩ := createIoqueue_write hvsz hpsz
  obtain ⟨rioq, hrioq, hrsplit, hrblocksz⟩ := createIoqueue_read hvsz hpsz
  have hwrite := writeQueue_of_lt hvsz hfits.1 hwsplit hwblocksz
  have hread := readQueue_of_fits hvsz hpsz hfits hrsplit hrblocksz
  refine ⟨wioq, rioq, hwioq, hrioq, fun parts hparts => ?_⟩
  obtain ⟨writer, pieces, hblock, hsto, hcut, hflat, hminfo⟩ :=
    writeBlock_spec crc hwrite hparts
  rw [Nat.sub_add_cancel hvsz.le] at hblock
  have hchunk : ∀ piece : List UInt8, piece.length ≤ versz - crcBytes →
      (frame crc piece).length ≤ versz := fun piece hle => by
    rw [frame_length]
    omega
  refine ⟨writer, hblock, ?_, ?_, ?_, ?_⟩
  · intro chunk hmem
    rw [hsto] at hmem
    obtain ⟨piece, hpiece, rfl⟩ := List.mem_map.1 hmem
    exact hchunk piece (hcut.bound piece hpiece).2
  · intro chunk hmem
    rw [hsto, ← map_dropLast] at hmem
    obtain ⟨piece, hpiece, rfl⟩ := List.mem_map.1 hmem
    rw [frame_length, hcut.full piece hpiece, Nat.sub_add_cancel hvsz.le]
  · rw [hminfo, hsto]
    exact length_flatten
  · have hreading := reading_init crc hcut
    have hdvd : partsz ∣ (Reader.init.held ++ pieces.flatten).length := by
      have hlen := flatten_length hparts
      rw [← hflat] at hlen
      exact ⟨parts.length, hlen.trans (Nat.mul_comm _ _)⟩
    obtain ⟨blocks, reader, hall, herror, hdata, hblk⟩ :=
      hreading.all hread (Nat.zero_le _) hdvd (Nat.lt_succ_self _)
    refine ⟨(Reader.init.held ++ pieces.flatten).length.succ, blocks, reader, ?_, herror,
      hdata.trans hflat, hblk⟩
    rw [hminfo, hsto]
    exact hall

/-! ### Where it fails -/

theorem Pieces.single (h : Pieces size pieces) (hle : pieces.flatten.length ≤ size)
    (hpos : 0 < pieces.flatten.length) : pieces = [pieces.flatten] := by
  cases pieces with
  | nil => exact absurd hpos (Nat.lt_irrefl 0)
  | cons piece rest =>
    cases rest with
    | nil => rw [flatten_singleton]
    | cons next rest =>
      have hfst : piece.length = size :=
        h.full piece (by rw [dropLast_cons_of_ne_nil (cons_ne_nil _ _)]; exact mem_cons_self)
      have hnext := (h.bound next (mem_cons_of_mem _ mem_cons_self)).1
      rw [flatten_cons, flatten_cons, length_append, length_append] at hle
      omega

theorem not_roundTrips_of_write (hvsz : crcBytes < versz) (hmax : versz < SizeT.modulus) (hpsz : 0 < partsz)
    (hpmax : partsz < SizeT.modulus) (hwrap : SizeT.modulus ≤ versz + partsz) :
    ¬RoundTrips crc versz partsz := by
  rintro ⟨wioq, rioq, hwioq, -, hround⟩
  obtain ⟨ioq, hioq, -, hbsz⟩ := createIoqueue_write hvsz hpsz
  obtain rfl := Option.some.inj (hwioq.symm.trans hioq)
  have hsmall : wioq.blocksz < partsz := by
    rw [hbsz, SizeT.wrap, Nat.mod_eq_sub_mod hwrap, Nat.mod_eq_of_lt (by omega)]
    omega
  obtain ⟨writer, hwr, -⟩ := hround [replicate partsz 0] fun part hpart => by
    rw [List.mem_singleton.1 hpart, length_replicate]
  have hover : (replicate partsz (0 : UInt8)).length > wioq.blocksz := by
    rwa [length_replicate]
  have hnone : writePart crc wioq ⟨none, ⟨versz, 0, 0⟩, []⟩ (replicate partsz 0) = none := by
    have hpush : pushFull crc wioq 1 ⟨none, ⟨versz, 0, 0⟩, []⟩ =
        some ⟨some ⟨[], 0⟩, ⟨versz, 0, 0⟩, []⟩ := rfl
    have hfill : 0 + (replicate partsz (0 : UInt8)).length > wioq.blocksz := by
      rw [Nat.zero_add]
      exact hover
    exact if_pos hfill
  rw [writeBlock, foldlM_cons, hnone] at hwr
  cases hwr

/-- The limits of a reader that does not fit, though those of a writer do: no data at all goes into an
ioblock, or all parts of one I/O are more than the buffer holds. -/
theorem readQueue_of_not_fits (hvsz : crcBytes < versz) (hpsz : 0 < partsz)
    (hsum : versz + partsz < SizeT.modulus) (hnot : ¬Fits versz partsz)
    (hspl : ioq.splitThreshold = SizeT.wrap (ofInt (partCount versz partsz) * partsz))
    (hbsz : ioq.blocksz = SizeT.wrap (ioq.splitThreshold + versz)) :
    partsz ≤ versz - crcBytes ∧
      (ioq.splitThreshold = 0 ∧ ioq.blocksz = versz ∨
        ioq.blocksz < (versz - crcBytes) / partsz * partsz + crcBytes) := by
  obtain ⟨hle, hcnt⟩ := not_or.1 fun hor => hnot ⟨hsum, hor⟩
  rw [Nat.not_lt] at hle
  refine ⟨hle, ?_⟩
  rw [partCount, if_neg (Nat.not_lt.2 hle)] at hspl
  obtain ⟨hupper, hlower⟩ := toInt_le ((versz - crcBytes) / partsz)
  generalize hq : (versz - crcBytes) / partsz = q at *
  have hqle : q * partsz ≤ versz - crcBytes := hq ▸ Nat.div_mul_le_self _ _
  have hqlt : versz - crcBytes < (q + 1) * partsz := by
    rw [← hq, Nat.mul_comm]
    exact Nat.lt_mul_div_succ _ hpsz
  rw [Nat.succ_mul] at hqlt
  have hmul : ∀ {k : Nat}, k ≤ q → k * partsz ≤ q * partsz := fun hk => Nat.mul_le_mul_right _ hk
  rcases lt_trichotomy (toInt q) 0 with hneg | hzero | hpos
  · -- a negative number wraps, and the sum wraps back
    right
    obtain ⟨k, hk⟩ := Int.eq_ofNat_of_zero_le (Int.neg_nonneg.2 hneg.le)
    have hkpos : 0 < k := by omega
    have hkle : k ≤ q := by omega
    have hkmul := hmul hkle
    have hkpart : partsz ≤ k * partsz := Nat.le_mul_of_pos_left _ hkpos
    have hkself := Nat.le_mul_of_pos_right k hpsz
    have hof : ofInt (toInt q) = SizeT.modulus - k := by
      rw [ofInt, ← Int.add_emod_right, Int.emod_eq_of_lt (by omega) (by omega)]
      omega
    have hthr : ioq.splitThreshold = SizeT.modulus - k * partsz := by
      have hone : SizeT.modulus * (partsz - 1) = SizeT.modulus * partsz - SizeT.modulus :=
        Nat.mul_sub_one _ _
      have hmax := Nat.le_mul_of_pos_right SizeT.modulus hpsz
      have hprod : (SizeT.modulus - k) * partsz =
          SizeT.modulus - k * partsz + SizeT.modulus * (partsz - 1) := by
        rw [Nat.sub_mul, hone]
        omega
      rw [hspl, hof, hprod, SizeT.wrap, Nat.add_mul_mod_self_left, Nat.mod_eq_of_lt (by omega)]
    rw [hthr, SizeT.wrap, Nat.mod_eq_sub_mod (by omega), Nat.mod_eq_of_lt (by omega)] at hbsz
    omega
  · left
    have hthr : ioq.splitThreshold = 0 := by
      rw [hspl, hzero, show ofInt 0 = 0 from rfl, Nat.zero_mul]
      rfl
    refine ⟨hthr, ?_⟩
    rw [hbsz, hthr, Nat.zero_add, SizeT.wrap_of_lt (by omega)]
  · -- the sum wraps
    right
    have hover : SizeT.modulus ≤ (toInt q).toNat * partsz + versz :=
      Nat.not_lt.1 fun hlt => hcnt ⟨hpos, hlt⟩
    have hmulle := hmul (k := (toInt q).toNat) (by omega)
    have hself := Nat.le_mul_of_pos_right (toInt q).toNat hpsz
    rw [ofInt_toNat hpos.le (by omega), SizeT.wrap_of_lt (by omega)] at hspl
    rw [hspl, SizeT.wrap, Nat.mod_eq_sub_mod hover, Nat.mod_eq_of_lt (by omega)] at hbsz
    omega

theorem readProduce_first {piece : List UInt8} {minfo : MetaInfo}
    (h : Reading crc size minfo [piece] Reader.init [] [piece]) :
    readProduce crc (blockGet (framed crc [piece])) ioq minfo Reader.init =
      ((readIo crc (blockGet (framed crc [piece])) ioq Reader.init ⟨[], 0⟩
        (piece.length + crcBytes)).bind
          (readLoop crc (blockGet (framed crc [piece])) ioq minfo minfo.blocksz)).map
            fun (push, reader) => (.block push, reader) := by
  have hbsz : 0 < minfo.blocksz := by
    rw [h.minfo]
    dsimp only
    rw [framed_cons, length_append, frame_length, crcBytes]
    omega
  have hread := h.toRead
  have hoff : minfo.blocksz - Reader.init.offset = minfo.blocksz := Nat.sub_zero _
  rw [hoff] at hread
  have hnever : ¬Reader.init.offset ≥ minfo.blocksz := Nat.not_le_of_lt hbsz
  have hmore : piece.length + crcBytes ≠ 0 := Nat.succ_ne_zero _
  rw [readProduce, if_neg hnever, readLoop, show reserveIoblock ioq Reader.init.iob =
    some (⟨[], 0⟩, none) from rfl]
  dsimp only
  rw [hoff, hread, if_neg hmore]
  cases readIo crc (blockGet (framed crc [piece])) ioq Reader.init ⟨[], 0⟩ (piece.length + crcBytes) with
  | none => rfl
  | some reader => rfl

theorem not_roundTrips_of_read (hvsz : crcBytes < versz) (hpsz : 0 < partsz)
    (hsum : versz + partsz < SizeT.modulus) (hnot : ¬Fits versz partsz) : ¬RoundTrips crc versz partsz := by
  rintro ⟨wioq, rioq, hwioq, hrioq, hround⟩
  obtain ⟨ioq, hioq, hwsplit, hwblocksz⟩ := createIoqueue_write hvsz hpsz
  obtain rfl := Option.some.inj (hwioq.symm.trans hioq)
  obtain ⟨ioq, hioq, hrsplit, hrblocksz⟩ := createIoqueue_read hvsz hpsz
  obtain rfl := Option.some.inj (hrioq.symm.trans hioq)
  have hwrite := writeQueue_of_lt hvsz hsum hwsplit hwblocksz
  obtain ⟨hle, hlimits⟩ := readQueue_of_not_fits hvsz hpsz hsum hnot hrsplit hrblocksz
  generalize hq : (versz - crcBytes) / partsz = q at hlimits
  have hqpos : 0 < q := hq ▸ Nat.div_pos hle hpsz
  have hqle : q * partsz ≤ versz - crcBytes := hq ▸ Nat.div_mul_le_self _ _
  have hparts : ∀ part ∈ replicate q (replicate partsz (0 : UInt8)), part.length = partsz :=
    fun part hpart => by rw [eq_of_mem_replicate hpart, length_replicate]
  obtain ⟨writer, hwr, -, -, -, fuel, blocks, reader, hall, -, -, hblk⟩ := hround _ hparts
  obtain ⟨writer', pieces, hblock, hsto, hcut, hflat, hminfo⟩ :=
    writeBlock_spec crc hwrite hparts
  rw [Nat.sub_add_cancel hvsz.le] at hblock
  obtain rfl := Option.some.inj (hwr.symm.trans hblock)
  have hlen : pieces.flatten.length = q * partsz := by
    rw [hflat, flatten_length hparts, length_replicate]
  have hpos : 0 < q * partsz := Nat.mul_pos hqpos hpsz
  have hsingle := hcut.single (by omega) (by omega)
  generalize pieces.flatten = piece at hsingle hlen
  subst hsingle
  have hread := reading_init crc hcut
  rw [← hminfo] at hread
  rw [hsto, show ([piece].map (frame crc)).flatten = framed crc [piece] from rfl] at hall
  cases fuel with
  | zero => cases hall
  | succ fuel =>
    rw [readAll, readProduce_first hread] at hall
    rcases hlimits with ⟨hspl, hsize⟩ | hsmall
    · -- an ioblock without data is pushed
      obtain ⟨next, hnext, hiob, -⟩ := hread.step rioq ⟨[], 0⟩ rfl (by
        rw [hsize, hlen, length_nil]
        omega)
      obtain ⟨n, hn⟩ : ∃ n, writer.minfo.blocksz = n + 1 := by
        refine Nat.exists_eq_add_one_of_ne_zero ?_
        rw [hminfo]
        dsimp only
        rw [framed_cons, length_append, frame_length, hlen]
        omega
      have hover : ¬(piece.length > rioq.splitThreshold ∧ piece.length > rioq.blocksz) := by
        rw [hsize, hlen]
        omega
      have hresv : ∃ cur, reserveIoblock rioq (some ⟨[] ++ piece, 0⟩) = some (cur, some ⟨[], 0⟩) := by
        rw [nil_append, reserveIoblock]
        dsimp only
        rw [if_neg (by rw [hspl]; exact Nat.not_lt_zero _), if_neg hover, hspl, take_zero]
        exact ⟨_, rfl⟩
      obtain ⟨cur, hresv⟩ := hresv
      rw [hnext, Option.bind_some, hn, readLoop, hiob, hresv] at hall
      obtain ⟨⟨rest, last⟩, -, heq⟩ := Option.map_eq_some_iff.1 hall
      obtain ⟨rfl, rfl⟩ := Prod.mk.inj heq
      exact absurd (hblk _ mem_cons_self).1 (Nat.lt_irrefl 0)
    · -- the piece does not fit
      have hover : readIo crc (blockGet (framed crc [piece])) rioq Reader.init ⟨[], 0⟩
          (piece.length + crcBytes) = none := by
        unfold readIo
        rw [if_neg (by omega), if_pos (by rw [hlen, length_nil]; omega)]
      rw [hover] at hall
      cases hall

end Result

/-- Blocks of one I/O size and one part size are read back as they were written exactly when the sizes
and the number of parts fit. -/
theorem blocks_roundTrip_iff (crc : Crc) {versz partsz : Nat} (hversz : crcBytes < versz)
    (hmax : versz < SizeT.modulus) (hpartsz : 0 < partsz) (hpmax : partsz < SizeT.modulus) :
    RoundTrips crc versz partsz ↔ Fits versz partsz := by
  refine ⟨fun hround => ?_, roundTrips_of_fits hversz hpartsz⟩
  by_contra hnot
  by_cases hsum : versz + partsz < SizeT.modulus
  · exact not_roundTrips_of_read hversz hpartsz hsum hnot hround
  · exact not_roundTrips_of_write hversz hmax hpartsz hpmax (Nat.not_lt.1 hsum) hround

/-- An I/O of 1 MiB with parts of 4 KiB. -/
theorem blocks_roundTrip_mebibyte : RoundTrips (fun _ => 0) 1048576 4096 ↔ Fits 1048576 4096 :=
  blocks_roundTrip_iff (fun _ => 0) (by decide) (by decide) (by decide) (by decide)

/-- An I/O of 4 GiB with parts of one byte: the number of parts is zero as an `int`. -/
theorem gibibytes_not_roundTrips : ¬RoundTrips (fun _ => 0) 4294967300 1 :=
  not_roundTrips_of_read (by decide) (by decide) (by decide) (by
    rintro ⟨-, hone | ⟨hpos, -⟩⟩
    · exact absurd hone (by decide)
    · exact absurd hpos (by decide))

end Marfs.Io
