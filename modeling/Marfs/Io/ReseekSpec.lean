import Marfs.Io.Reseek

/-!
# Where a reader goes

A reader is placed at an offset of the data of its block if what it holds, and what it has not read yet,
is the data from there on.  `read_produce` moves it over what it pushes.  `read_resume` places it at the
new offset exactly if its comparison is not misled: the offset it compares counts the CRCs of everything
that was read, so that it can meet the target though the ioblock starts before it.
-/

namespace Marfs.Io

open Marfs.Machine List

/-! ## What a call leaves -/

section Bound

variable {crc : Crc} {stored : List UInt8} {ioq : Ioqueue} {minfo : MetaInfo} {size : Nat}
  {reader next : Reader} {push cur : Ioblock}

theorem readIo_held {toRead : Nat} (h : readIo crc (blockGet stored) ioq reader cur toRead = some next) :
    next.held.length = cur.data.length + (toRead - crcBytes) := by
  unfold readIo at h
  split_ifs at h
  dsimp only at h
  obtain rfl := Option.some.inj h
  have hbuff : (blockGet stored toRead reader.offset).2.length = toRead := by
    have hle : ((stored.drop reader.offset).take toRead).length ≤ toRead := length_take_le _ _
    dsimp only [blockGet]
    rw [length_append, length_replicate]
    omega
  simp only [Reader.held, Option.elim_some, Ioblock.updateFill, length_append, length_take,
    hbuff]
  omega

theorem reserveIoblock_bound (hpos : 0 < ioq.splitThreshold) {iob : Option Ioblock}
    {pushed : Option Ioblock} (h : reserveIoblock ioq iob = some (cur, pushed)) :
    pushed = none ∧ cur.data = iob.elim [] Ioblock.data ∧ cur.data.length < ioq.splitThreshold ∨
      ∃ block, pushed = some block ∧ block.data.length = ioq.splitThreshold ∧
        block.data ++ cur.data = iob.elim [] Ioblock.data := by
  cases iob with
  | none =>
    obtain ⟨rfl, rfl⟩ := Prod.mk.inj (Option.some.inj h)
    exact .inl ⟨rfl, rfl, hpos⟩
  | some prev =>
    rw [reserveIoblock] at h
    split at h
    · rename_i hroom
      obtain ⟨rfl, rfl⟩ := Prod.mk.inj (Option.some.inj h)
      exact .inl ⟨rfl, rfl, hroom⟩
    · split at h
      · cases h
      · obtain ⟨rfl, rfl⟩ := Prod.mk.inj (Option.some.inj h)
        refine .inr ⟨_, rfl, ?_, take_append_drop _ _⟩
        rw [length_take]
        omega

theorem readLoop_bound (hvsz : minfo.versz = size + crcBytes) (hsize : 0 < size)
    (hpos : 0 < ioq.splitThreshold) {fuel : Nat} (hheld : reader.held.length < ioq.splitThreshold + size)
    (h : readLoop crc (blockGet stored) ioq minfo fuel reader = some (push, next)) :
    push.data.length ≤ ioq.splitThreshold ∧
      push.data.length + next.held.length < ioq.splitThreshold + size := by
  induction fuel generalizing reader with
  | zero => cases h
  | succ fuel ih =>
    rw [readLoop] at h
    cases hresv : reserveIoblock ioq reader.iob with
    | none =>
      rw [hresv] at h
      cases h
    | some reserved =>
      obtain ⟨cur, pushed⟩ := reserved
      rw [hresv] at h
      rcases reserveIoblock_bound hpos hresv with ⟨rfl, -, hroom⟩ | ⟨block, rfl, hfull, happend⟩
      · dsimp only at h
        split at h
        · obtain ⟨rfl, rfl⟩ := Prod.mk.inj (Option.some.inj h)
          have hnone : Reader.held { reader with iob := none } = [] := rfl
          rw [hnone, length_nil]
          omega
        · cases hread : readIo crc (blockGet stored) ioq reader cur
              (min minfo.versz (minfo.blocksz - reader.offset)) with
          | none =>
            rw [hread] at h
            cases h
          | some middle =>
            rw [hread] at h
            refine ih ?_ h
            rw [readIo_held hread]
            omega
      · obtain ⟨rfl, rfl⟩ := Prod.mk.inj (Option.some.inj h)
        have hcur : Reader.held { reader with iob := some cur } = cur.data := rfl
        have hlen := congrArg List.length happend
        have hheld' : (reader.iob.elim [] Ioblock.data).length < ioq.splitThreshold + size := hheld
        rw [length_append] at hlen
        rw [hcur]
        omega

theorem readProduce_bound (hvsz : minfo.versz = size + crcBytes) (hsize : 0 < size)
    (hpos : 0 < ioq.splitThreshold) (hmore : reader.offset < minfo.blocksz)
    (hheld : reader.held.length < ioq.splitThreshold + size)
    (h : readProduce crc (blockGet stored) ioq minfo reader = some (.block push, next)) :
    push.data.length ≤ ioq.splitThreshold ∧
      push.data.length + next.held.length < ioq.splitThreshold + size := by
  rw [readProduce, if_neg (by omega)] at h
  obtain ⟨⟨push', next'⟩, hloop, heq⟩ := Option.map_eq_some_iff.1 h
  obtain ⟨hpush, rfl⟩ := Prod.mk.inj heq
  obtain rfl := Produced.block.inj hpush
  exact readLoop_bound hvsz hsize hpos hheld hloop

theorem readProduce_finished {get : DalGet}
    (h : readProduce crc get ioq minfo reader = some (.finished, next)) :
    next = { reader with dataError := next.dataError } := by
  rw [readProduce] at h
  split at h
  · dsimp only at h
    split at h
    · split at h
      · cases h
      · obtain ⟨-, rfl⟩ := Prod.mk.inj (Option.some.inj h)
        rfl
    · obtain ⟨-, rfl⟩ := Prod.mk.inj (Option.some.inj h)
      rfl
  · obtain ⟨result, -, heq⟩ := Option.map_eq_some_iff.1 h
    cases heq

end Bound

/-! ## Positions -/

structure Readable (crc : Crc) (ioq : Ioqueue) (size partsz : Nat) (minfo : MetaInfo)
    (pieces : List (List UInt8)) : Prop where
  queue : ReadQueue ioq size partsz
  size_pos : 0 < size
  partsz_pos : 0 < partsz
  gap : size < ioq.splitThreshold + partsz
  split_lt : ioq.splitThreshold < SizeT.modulus
  size_lt : size < SizeT.modulus
  cut : Pieces size pieces
  whole : partsz ∣ pieces.flatten.length
  minfo_eq : minfo = ⟨size + crcBytes, (framed crc pieces).length, crcSum crc pieces⟩
  blocksz_lt : (framed crc pieces).length < SizeT.modulus

structure PlacedBy (crc : Crc) (ioq : Ioqueue) (size : Nat) (minfo : MetaInfo)
    (pieces : List (List UInt8)) (reader ideal : Reader) (seen rest : List (List UInt8))
    (position : Nat) : Prop where
  alike : Alike ioq reader ideal
  reading : Reading crc size minfo pieces ideal seen rest
  held_le : reader.held.length ≤ ioq.blocksz
  position_le : position ≤ pieces.flatten.length
  remaining : pieces.flatten.drop position = reader.held ++ rest.flatten

def Placed (crc : Crc) (ioq : Ioqueue) (size : Nat) (minfo : MetaInfo) (pieces : List (List UInt8))
    (reader : Reader) (position : Nat) : Prop :=
  ∃ ideal seen rest, PlacedBy crc ioq size minfo pieces reader ideal seen rest position

section Positions

variable {crc : Crc} {ioq : Ioqueue} {size partsz : Nat} {minfo : MetaInfo}
  {pieces seen rest : List (List UInt8)} {reader ideal next : Reader} {position : Nat}

theorem framed_length (crc : Crc) (pieces : List (List UInt8)) :
    (framed crc pieces).length = pieces.flatten.length + crcBytes * pieces.length := by
  induction pieces with
  | nil => rfl
  | cons piece pieces ih =>
    rw [framed_cons, length_append, frame_length, ih, flatten_cons, length_append,
      length_cons, Nat.mul_succ]
    omega

theorem Pieces.flatten_take {count : Nat} (h : Pieces size pieces) (hcnt : count < pieces.length) :
    (pieces.take count).flatten.length = count * size := by
  have hfull : ∀ piece ∈ pieces.take count, piece.length = size := by
    intro piece hpiece
    apply h.full
    rw [dropLast_eq_take]
    exact (take_subset_take_left pieces (by omega)) hpiece
  rw [flatten_length hfull, length_take, Nat.min_eq_left hcnt.le]

theorem flatten_length_le {pieces : List (List UInt8)} (h : ∀ piece ∈ pieces, piece.length ≤ size) :
    pieces.flatten.length ≤ pieces.length * size := by
  induction pieces with
  | nil => exact Nat.zero_le _
  | cons piece pieces ih =>
    have hpiece := h piece mem_cons_self
    have hrest := ih fun p hp => h p (mem_cons_of_mem _ hp)
    rw [flatten_cons, length_append, length_cons, Nat.succ_mul]
    omega

theorem Pieces.flatten_le (h : Pieces size pieces) : pieces.flatten.length ≤ pieces.length * size :=
  flatten_length_le fun piece hpiece => (h.bound piece hpiece).2

theorem PlacedBy.lengths (h : PlacedBy crc ioq size minfo pieces reader ideal seen rest position) :
    position + reader.held.length = seen.flatten.length ∧
    position + reader.held.length + rest.flatten.length = pieces.flatten.length := by
  have hrem := congrArg List.length h.remaining
  have hpcs := congrArg (fun l => (flatten l).length) h.reading.pieces_eq
  have hle := h.position_le
  simp only [length_drop, length_append, flatten_append] at hrem hpcs
  omega

theorem PlacedBy.offset_eq (h : PlacedBy crc ioq size minfo pieces reader ideal seen rest position) :
    reader.offset = position + reader.held.length + crcBytes * seen.length := by
  rw [h.alike.offset, h.reading.offset, framed_length, h.lengths.1]

theorem Readable.placed_init (h : Readable crc ioq size partsz minfo pieces) :
    Placed crc ioq size minfo pieces Reader.init 0 := by
  refine ⟨Reader.init, [], pieces, .refl ioq _, ?_, Nat.zero_le _, Nat.zero_le _, rfl⟩
  rw [h.minfo_eq]
  exact reading_init crc h.cut

theorem Readable.produce (h : Readable crc ioq size partsz minfo pieces)
    (hplcd : Placed crc ioq size minfo pieces reader position) :
    (position = pieces.flatten.length ∧ ∃ next,
      readProduce crc (blockGet (framed crc pieces)) ioq minfo reader = some (.finished, next) ∧
        Placed crc ioq size minfo pieces next position) ∨
    ∃ push next,
      readProduce crc (blockGet (framed crc pieces)) ioq minfo reader = some (.block push, next) ∧
        0 < push.data.length ∧
        (push.data.length = ioq.splitThreshold ∨
          position + push.data.length = pieces.flatten.length) ∧
        pieces.flatten.drop position =
          push.data ++ pieces.flatten.drop (position + push.data.length) ∧
        Placed crc ioq size minfo pieces next (position + push.data.length) := by
  obtain ⟨ideal, seen, rest, hby⟩ := hplcd
  have hheld := hby.alike.held
  have hlengths := hby.lengths
  rcases hby.reading.produce h.queue (hheld ▸ hby.held_le) with
    ⟨hnil, ideal', hprod', herror⟩ | ⟨push', ideal', seen', rest', hprod', hpushes⟩
  · obtain ⟨produced, next, hprod, hkind, halk⟩ := readProduce_alike hby.alike hprod'
    cases hkind
    left
    have hlen := congrArg List.length hnil
    rw [← hheld, length_append, length_nil] at hlen
    refine ⟨by omega, next, hprod, ideal, seen, rest, ?_, hby.reading, ?_, hby.position_le, ?_⟩
    · have hideal : ideal' = ideal := by
        rw [readProduce_finished hprod', herror, ← hby.reading.dataError]
      rwa [hideal] at halk
    · have hnext := halk.held
      rw [readProduce_finished hprod'] at hnext
      have hideal : Reader.held { ideal with dataError := ideal'.dataError } = reader.held := hheld.symm
      rw [hnext, hideal]
      exact hby.held_le
    · have hnext := halk.held
      rw [readProduce_finished hprod'] at hnext
      have hideal : Reader.held { ideal with dataError := ideal'.dataError } = reader.held := hheld.symm
      rw [hnext, hideal]
      exact hby.remaining
  · obtain ⟨produced, next, hprod, hkind, halk⟩ := readProduce_alike hby.alike hprod'
    cases hkind with
    | @block push _ hdata =>
    right
    obtain ⟨hread, hcont, hpos, -, hheld', hwhl⟩ := hpushes
    have hnext := halk.held
    rw [← hheld, ← hby.remaining, ← hdata, ← hnext] at hcont
    have hdrop : pieces.flatten.drop (position + push.data.length) = next.held ++ rest'.flatten := by
      rw [← drop_drop, hcont, drop_left]
    have hlen := congrArg List.length hcont
    simp only [length_drop, length_append] at hlen
    rw [← hdata] at hpos hwhl
    refine ⟨push, next, hprod, hpos, ?_, by rw [hdrop, hcont], ideal', seen', rest', halk,
      hread, hnext ▸ hheld', by omega, hdrop⟩
    rcases hwhl with hspl | hend
    · exact .inl hspl
    · right
      rw [← hnext] at hend
      have hzero := congrArg List.length hend
      rw [length_append, length_nil] at hzero
      omega

theorem Readable.all (h : Readable crc ioq size partsz minfo pieces) {fuel : Nat}
    (hplcd : Placed crc ioq size minfo pieces reader position)
    (hfuel : pieces.flatten.length < position + fuel) :
    ∃ blocks last,
      readAll crc (blockGet (framed crc pieces)) ioq minfo fuel reader = some (blocks, last) ∧
        (blocks.map Ioblock.data).flatten = pieces.flatten.drop position ∧
        (partsz ∣ position → ∀ block ∈ blocks, 0 < block.data.length ∧ partsz ∣ block.data.length) := by
  induction fuel generalizing reader position with
  | zero =>
    obtain ⟨ideal, seen, rest, hby⟩ := hplcd
    have hle := hby.position_le
    omega
  | succ fuel ih =>
    rw [readAll]
    rcases h.produce hplcd with ⟨rfl, next, hprod, -⟩ |
      ⟨push, next, hprod, hpos, hwhl, hdata, hnext⟩
    · rw [hprod]
      exact ⟨[], next, rfl, (drop_length).symm, fun _ block hblock => absurd hblock not_mem_nil⟩
    · rw [hprod]
      obtain ⟨blocks, last, hall, hflat, hblk⟩ := ih hnext (by omega)
      refine ⟨push :: blocks, last, ?_, ?_, fun hdvd => ?_⟩
      · dsimp only
        rw [hall]
        rfl
      · rw [map_cons, flatten_cons, hflat, ← hdata]
      · have hpush : partsz ∣ push.data.length := by
          rcases hwhl with hspl | hend
          · exact hspl ▸ h.queue.parts
          · rw [← Nat.dvd_add_right hdvd, hend]
            exact h.whole
        intro block hblock
        rcases List.mem_cons.1 hblock with rfl | hmem
        · exact ⟨hpos, hpush⟩
        · exact hblk (Nat.dvd_add hdvd hpush) block hmem

/-! ## Junk -/

/-- A reader whose ioblocks are thrown out passes over as many of them, as long as more than a part of
data follows. -/
theorem Readable.produceJunk (h : Readable crc ioq size partsz minfo pieces) {junkBlocks : Nat}
    (halk : Alike ioq reader ideal) (hread : Reading crc size minfo pieces ideal seen rest)
    (hheld : reader.held.length < ioq.splitThreshold + size) (hrest : junkBlocks ≠ 0 → rest ≠ [])
    (hlen : junkBlocks * ioq.splitThreshold + partsz ≤ (reader.held ++ rest.flatten).length) :
    ∃ next ideal' seen' rest',
      Io.produceJunk crc (blockGet (framed crc pieces)) ioq minfo junkBlocks reader = some next ∧
        Alike ioq next ideal' ∧ Reading crc size minfo pieces ideal' seen' rest' ∧
        next.held.length < ioq.splitThreshold + size ∧
        next.held ++ rest'.flatten =
          (reader.held ++ rest.flatten).drop (junkBlocks * ioq.splitThreshold) := by
  induction junkBlocks generalizing reader ideal seen rest with
  | zero =>
    refine ⟨reader, ideal, seen, rest, rfl, halk, hread, hheld, ?_⟩
    rw [Nat.zero_mul, drop_zero]
  | succ junkBlocks ih =>
    have hpos := h.queue.pos
    have hgap := h.gap
    have hsize := h.size_pos
    have hpsz := h.partsz_pos
    have hmore : ideal.offset < minfo.blocksz := by
      have hoff := hread.offset_le
      have hfr := length_le_framed crc rest
      have hcons := List.length_pos_iff.2 (hrest (Nat.succ_ne_zero _))
      omega
    have hvsz : minfo.versz = size + crcBytes := by rw [h.minfo_eq]
    have hbsz := h.queue.blocksz
    have hideal := halk.held
    rw [Nat.succ_mul] at hlen
    rcases hread.produce h.queue (by rw [← hideal]; omega) with
      ⟨hnil, -⟩ | ⟨push', ideal', seen', rest', hprod', hpushes⟩
    · rw [hideal, hnil, length_nil] at hlen
      omega
    · obtain ⟨produced, next, hprod, hkind, hnext⟩ := readProduce_alike halk hprod'
      cases hkind with
      | @block push _ hdata =>
      obtain ⟨hread', hcont, hpushpos, -, -, hwhl⟩ := hpushes
      obtain ⟨hle, hlt⟩ := readProduce_bound hvsz hsize hpos hmore (hideal ▸ hheld) hprod'
      rw [← hideal, ← hnext.held] at hcont
      rw [← hnext.held] at hlt hwhl
      have hsum : (reader.held ++ rest.flatten).length =
          push'.data.length + (next.held ++ rest'.flatten).length := by
        rw [hcont, length_append]
      have hfull : push'.data.length = ioq.splitThreshold := by
        rcases hwhl with hspl | hend
        · exact hspl
        · rw [hend, length_nil] at hsum
          omega
      have hleft : (next.held ++ rest'.flatten).length = next.held.length + rest'.flatten.length :=
        length_append
      have hrest' : junkBlocks ≠ 0 → rest' ≠ [] := by
        rintro hjunk rfl
        have hone : ioq.splitThreshold ≤ junkBlocks * ioq.splitThreshold :=
          Nat.le_mul_of_pos_left _ (Nat.pos_of_ne_zero hjunk)
        have hnil : ([] : List (List UInt8)).flatten.length = 0 := rfl
        rw [hnil] at hleft
        omega
      obtain ⟨last, ideal'', seen'', rest'', hjunk, hlast, hread'', hheld'', hdrop⟩ :=
        ih hnext hread' (by omega) hrest' (by omega)
      refine ⟨last, ideal'', seen'', rest'', ?_, hlast, hread'', hheld'', ?_⟩
      · rw [Io.produceJunk, hprod]
        exact hjunk
      · rw [hdrop, hcont, Nat.succ_mul, Nat.add_comm, ← drop_drop, ← hfull, drop_left]

/-! ## Reseeking -/

/-- With parts that are not smaller than the gap, at most one whole ioblock lies before an offset of an
I/O. -/
theorem Readable.alignIoblock (h : Readable crc ioq size partsz minfo pieces) (buff : Nat → UInt8)
    {trim : Nat} (htrim : trim < size) :
    ∃ (junkBlocks : Nat) (iob : Ioblock), Io.alignIoblock ioq buff trim = some ((junkBlocks : Int), iob) ∧
      iob.data.length + trim = junkBlocks * ioq.splitThreshold ∧
      iob.data.length ≤ ioq.splitThreshold ∧ iob.errorEnd ≤ ioq.splitThreshold := by
  have hpos := h.queue.pos
  have hgap := h.gap
  have hlt := h.split_lt
  have hbelow := htrim.trans h.size_lt
  have hparts := Nat.le_of_dvd hpos h.queue.parts
  have hmod := Nat.div_add_mod trim ioq.splitThreshold
  have hrest := Nat.mod_lt trim hpos
  have hquot : trim / ioq.splitThreshold < 2 := (Nat.div_lt_iff_lt_mul hpos).2 (by omega)
  unfold Io.alignIoblock
  rw [if_neg hpos.ne']
  generalize trim / ioq.splitThreshold = quot at hquot hmod
  generalize trim % ioq.splitThreshold = rem at hmod hrest
  rw [Nat.mul_comm] at hmod
  have hint : toInt quot = (quot : Int) := by
    unfold toInt
    dsimp only
    rw [Nat.mod_eq_of_lt (by omega), if_pos (by omega)]
  have hof : ofInt ((quot : Int) + 1 - 1) = quot := by
    have hmodulus : 2 < SizeT.modulus := by decide
    rw [Int.add_sub_cancel, ofInt_toNat (Int.natCast_nonneg _) (by rw [Int.toNat_natCast]; omega),
      Int.toNat_natCast]
  have hrem : SizeT.sub trim (SizeT.wrap (quot * ioq.splitThreshold)) = rem := by
    rw [SizeT.wrap_of_lt (by omega), SizeT.sub_of_le (by omega) hbelow]
    omega
  have hfill : SizeT.sub ioq.splitThreshold rem = ioq.splitThreshold - rem :=
    SizeT.sub_of_le hrest.le hlt
  refine ⟨quot + 1, ⟨(List.range (ioq.splitThreshold - rem)).map buff, ioq.splitThreshold - rem⟩, ?_,
    ?_, ?_, Nat.sub_le _ _⟩
  · simp only [hint, hof, hrem, hfill, Nat.cast_add, Nat.cast_one]
  · rw [length_map, length_range, Nat.succ_mul]
    omega
  · rw [length_map, length_range]
    exact Nat.sub_le _ _

def Reader.reseek (reader : Reader) (versz ioCount : Nat) : Reader :=
  { reader with
    crcsumchk := 0
    continuous := if ioCount ≠ 0 then false else reader.continuous
    offset := SizeT.wrap (ioCount * versz)
    iob := if reader.held.length ≠ 0 then none else reader.iob }

theorem Reader.held_reseek (reader : Reader) (versz ioCount : Nat) :
    (reader.reseek versz ioCount).held = [] := by
  by_cases hemp : reader.held.length ≠ 0
  · have hnone : (reader.reseek versz ioCount).iob = none := if_pos hemp
    rw [Reader.held, hnone]
    rfl
  · have hsame : (reader.reseek versz ioCount).iob = reader.iob := if_neg hemp
    rw [Reader.held, hsame]
    exact List.length_eq_zero_iff.1 (not_not.1 hemp)

theorem Readable.reseek (h : Readable crc ioq size partsz minfo pieces)
    (hplcd : Placed crc ioq size minfo pieces reader position) {ioCount : Nat}
    (hcnt : ioCount < pieces.length) :
    ∃ ideal, PlacedBy crc ioq size minfo pieces (reader.reseek minfo.versz ioCount) ideal
      (pieces.take ioCount) (pieces.drop ioCount) (ioCount * size) := by
  obtain ⟨ideal, seen, rest, hby⟩ := hplcd
  have htake := h.cut.flatten_take hcnt
  have hspl : pieces.flatten = (pieces.take ioCount).flatten ++ (pieces.drop ioCount).flatten := by
    rw [← flatten_append, take_append_drop]
  have hvsz : minfo.versz = size + crcBytes := by rw [h.minfo_eq]
  have hoff : ioCount * minfo.versz = (framed crc (pieces.take ioCount)).length := by
    rw [framed_length, htake, hvsz, length_take, Nat.min_eq_left hcnt.le, Nat.mul_add,
      Nat.mul_comm crcBytes]
  have hlt : ioCount * minfo.versz < SizeT.modulus := by
    have hle : (framed crc pieces).length =
        (framed crc (pieces.take ioCount)).length + (framed crc (pieces.drop ioCount)).length := by
      rw [← length_append, ← framed_append, take_append_drop]
    have hmax := h.blocksz_lt
    omega
  have hlen := congrArg List.length hspl
  rw [length_append, htake] at hlen
  refine ⟨{ ideal with
      crcsumchk := crcSum crc (pieces.take ioCount)
      continuous := if ioCount ≠ 0 then false else ideal.continuous
      offset := SizeT.wrap (ioCount * minfo.versz)
      iob := if reader.held.length ≠ 0 then none else ideal.iob },
    ⟨rfl, ?_, ?_, ?_, hby.alike.dataError, hby.alike.metaError⟩,
    ⟨(take_append_drop ioCount pieces).symm, h.cut, hby.reading.minfo, ?_, rfl,
      hby.reading.dataError, ?_⟩, ?_, by omega, ?_⟩
  · unfold Reader.reseek
    dsimp only
    split
    · exact .none
    · exact hby.alike.iob
  · unfold Reader.reseek
    rw [hby.alike.continuous]
  · -- only a reader at the start goes on checking its sum
    unfold Reader.reseek
    intro hcont
    dsimp only at hcont ⊢
    split at hcont
    · cases hcont
    · rename_i hzero
      rw [not_not.1 hzero]
      rfl
  · rw [SizeT.wrap_of_lt hlt, hoff]
  · intro iob hiob
    dsimp only at hiob
    split at hiob
    · cases hiob
    · exact hby.reading.errorEnd iob hiob
  · rw [reader.held_reseek]
    exact Nat.zero_le _
  · rw [reader.held_reseek, hspl, ← htake, drop_left, nil_append]

theorem Readable.resume_of_ne (h : Readable crc ioq size partsz minfo pieces) (buff : Nat → UInt8)
    (hplcd : Placed crc ioq size minfo pieces reader position) {noffset : Nat}
    (hne : SizeT.sub reader.offset reader.held.length ≠
      SizeT.wrap (noffset / size % 2 ^ 32 * minfo.versz + noffset % size))
    (hroom : noffset / size % 2 ^ 32 * size + noffset % size + partsz ≤ pieces.flatten.length) :
    ∃ next, readResume crc (blockGet (framed crc pieces)) ioq minfo buff reader noffset = some next ∧
      Placed crc ioq size minfo pieces next (noffset / size % 2 ^ 32 * size + noffset % size) := by
  have hvsz : minfo.versz - crcBytes = size := by
    rw [h.minfo_eq]
    exact Nat.add_sub_cancel _ _
  have hpsz := h.partsz_pos
  have htrim := Nat.mod_lt noffset h.size_pos
  unfold readResume
  rw [hvsz]
  dsimp only
  rw [if_pos hne]
  generalize noffset / size % 2 ^ 32 = ioCount at hroom ⊢
  generalize noffset % size = trim at hroom htrim ⊢
  have hcnt : ioCount < pieces.length := by
    have hle := h.cut.flatten_le
    by_contra hge
    have hmul : pieces.length * size ≤ ioCount * size := Nat.mul_le_mul_right _ (by omega)
    omega
  obtain ⟨ideal, hby⟩ := h.reseek hplcd hcnt
  have hheld := reader.held_reseek minfo.versz ioCount
  by_cases hzero : trim ≠ 0
  · rw [if_pos hzero]
    obtain ⟨junkBlocks, iob, halign, hfill, hle, herror⟩ := h.alignIoblock buff htrim
    rw [halign]
    dsimp only
    rw [if_neg (by omega), Int.toNat_natCast]
    have hbsz := h.queue.blocksz
    have hsize := h.size_pos
    have hrem := hby.remaining
    rw [hheld, nil_append] at hrem
    have hlen := congrArg List.length hrem
    rw [length_drop] at hlen
    -- the fake bytes and the data before the offset are whole ioblocks
    have halk : Alike ioq { reader.reseek minfo.versz ioCount with iob := some iob }
        { ideal with iob := some { iob with errorEnd := 0 } } :=
      hby.alike.setIob (.some ⟨rfl, .inr ⟨herror, Nat.zero_le _⟩⟩)
    have hread : Reading crc size minfo pieces
        { ideal with iob := some { iob with errorEnd := 0 } } (pieces.take ioCount)
        (pieces.drop ioCount) := by
      apply hby.reading.hold
      intro block hblock
      rw [← Option.some.inj hblock]
    have hcur : Reader.held { reader.reseek minfo.versz ioCount with iob := some iob } = iob.data := rfl
    have hrest : pieces.drop ioCount ≠ [] := by
      intro hnil
      have hdrop := congrArg List.length hnil
      rw [length_drop, length_nil] at hdrop
      omega
    have henough : junkBlocks * ioq.splitThreshold + partsz ≤
        (Reader.held { reader.reseek minfo.versz ioCount with iob := some iob } ++
          (pieces.drop ioCount).flatten).length := by
      rw [hcur, length_append]
      omega
    obtain ⟨next, ideal', seen', rest', hjunk, hnext, hread', hheld', hdrop⟩ :=
      h.produceJunk halk hread (by rw [hcur]; omega) (fun _ => hrest) henough
    refine ⟨next, hjunk, ideal', seen', rest', hnext, hread', by omega, by omega, ?_⟩
    have hskip : ∀ data : List UInt8, (iob.data ++ data).drop (iob.data.length + trim) =
        data.drop trim := by
      intro data
      rw [← drop_drop, drop_left]
    rw [hdrop, hcur, ← hrem, ← hfill, hskip, drop_drop]
  · rw [if_neg hzero, not_not.1 hzero, Nat.add_zero]
    exact ⟨_, rfl, ideal, _, _, hby⟩

/-! ## Which reseeks are right -/

/-- The comparison of `read_resume` is not misled: the number of the I/O is an `unsigned int`, and a
reader that holds data does not have, counting the CRCs of what it read, the target's own offset in the
block. -/
def Reader.Clear (reader : Reader) (size noffset : Nat) : Prop :=
  noffset / size < 2 ^ 32 ∧
    (reader.held = [] ∨
      reader.offset - reader.held.length ≠ noffset + crcBytes * (noffset / size))

instance (reader : Reader) (size noffset : Nat) : Decidable (reader.Clear size noffset) :=
  inferInstanceAs (Decidable (_ ∧ _))

theorem Readable.compared (h : Readable crc ioq size partsz minfo pieces)
    (hplcd : Placed crc ioq size minfo pieces reader position) {noffset : Nat}
    (hlt : noffset < pieces.flatten.length) :
    SizeT.sub reader.offset reader.held.length = reader.offset - reader.held.length ∧
      SizeT.wrap (noffset / size % 2 ^ 32 * minfo.versz + noffset % size) =
        noffset / size % 2 ^ 32 * size + noffset % size + crcBytes * (noffset / size % 2 ^ 32) := by
  obtain ⟨ideal, seen, rest, hby⟩ := hplcd
  have hoff := hby.offset_eq
  have hlengths := hby.lengths
  have hmax := h.blocksz_lt
  have hfr := framed_length crc pieces
  have hpcs := congrArg List.length hby.reading.pieces_eq
  have hvsz : minfo.versz = size + crcBytes := by rw [h.minfo_eq]
  have hdiv := Nat.div_add_mod noffset size
  have hquot : noffset / size % 2 ^ 32 ≤ noffset / size := Nat.mod_le _ _
  have hbelow : noffset / size < pieces.length := by
    apply (Nat.div_lt_iff_lt_mul h.size_pos).2
    exact hlt.trans_le h.cut.flatten_le
  have hmul : size * (noffset / size % 2 ^ 32) ≤ size * (noffset / size) := Nat.mul_le_mul_left _ hquot
  have hseen : crcBytes * seen.length ≤ crcBytes * pieces.length := by
    rw [length_append] at hpcs
    exact Nat.mul_le_mul_left _ (by omega)
  have hcrc : crcBytes * (noffset / size % 2 ^ 32) ≤ crcBytes * pieces.length :=
    Nat.mul_le_mul_left _ (by omega)
  have hspl : noffset / size % 2 ^ 32 * minfo.versz =
      noffset / size % 2 ^ 32 * size + crcBytes * (noffset / size % 2 ^ 32) := by
    rw [hvsz, Nat.mul_add, Nat.mul_comm crcBytes]
  rw [hspl, Nat.mul_comm _ size]
  refine ⟨SizeT.sub_of_le (by omega) (by omega), ?_⟩
  rw [SizeT.wrap_of_lt (by omega)]
  omega

theorem PlacedBy.seen_length (h : PlacedBy crc ioq size minfo pieces reader ideal seen rest position) :
    seen.flatten.length ≤ seen.length * size ∧
      (rest ≠ [] → seen.flatten.length = seen.length * size) := by
  have hpcs := h.reading.pieces_eq
  have hcut := h.reading.cut
  constructor
  · apply flatten_length_le
    intro piece hpiece
    apply (hcut.bound piece _).2
    rw [hpcs]
    exact mem_append_left _ hpiece
  · intro hrest
    have hcnt : seen.length < pieces.length := by
      have hpos := List.length_pos_iff.2 hrest
      rw [hpcs, length_append]
      omega
    have htake := hcut.flatten_take hcnt
    rwa [hpcs, take_left] at htake

theorem PlacedBy.position_of_eq
    (h : PlacedBy crc ioq size minfo pieces reader ideal seen rest position) {quot rem : Nat}
    (hrem : rem < size) (hlt : quot * size + rem < pieces.flatten.length) (hheld : reader.held = [])
    (heq : position + crcBytes * seen.length = quot * size + rem + crcBytes * quot) :
    position = quot * size + rem := by
  obtain ⟨hle, hwhl⟩ := h.seen_length
  obtain ⟨hseen, htotal⟩ := h.lengths
  rw [hheld, length_nil] at hseen htotal
  have horder : seen.length ≤ quot ∨ quot * size + size ≤ seen.length * size := by
    rcases Nat.lt_or_ge quot seen.length with hmore | hfew
    · right
      rw [← Nat.succ_mul]
      exact Nat.mul_le_mul_right _ hmore
    · exact .inl hfew
  cases rest with
  | nil =>
    -- at the end of the block the target lies in an I/O that was read
    have hnil : ([] : List (List UInt8)).flatten.length = 0 := rfl
    rw [hnil] at htotal
    rcases horder with hfew | hmore
    · have hmul : seen.length * size ≤ quot * size := Nat.mul_le_mul_right _ hfew
      omega
    · have hmul : quot < seen.length := by
        by_contra hge
        have hback : seen.length * size ≤ quot * size := Nat.mul_le_mul_right _ (by omega)
        omega
      have hcrc : crcBytes * quot < crcBytes * seen.length := Nat.mul_lt_mul_of_pos_left hmul (by decide)
      omega
  | cons piece rest =>
    have hfull := hwhl (cons_ne_nil _ _)
    rcases horder with hfew | hmore
    · have hmul : seen.length * size ≤ quot * size := Nat.mul_le_mul_right _ hfew
      have hcrc : crcBytes * seen.length ≤ crcBytes * quot := Nat.mul_le_mul_left _ hfew
      omega
    · have hmul : quot < seen.length := by
        by_contra hge
        have hback : seen.length * size ≤ quot * size := Nat.mul_le_mul_right _ (by omega)
        omega
      have hcrc : crcBytes * quot < crcBytes * seen.length := Nat.mul_lt_mul_of_pos_left hmul (by decide)
      omega

theorem Readable.resume (h : Readable crc ioq size partsz minfo pieces) (buff : Nat → UInt8)
    (hplcd : Placed crc ioq size minfo pieces reader position) {noffset : Nat}
    (hlt : noffset < pieces.flatten.length) (hdvd : partsz ∣ noffset) :
    ∃ next target,
      readResume crc (blockGet (framed crc pieces)) ioq minfo buff reader noffset = some next ∧
        Placed crc ioq size minfo pieces next target ∧
        (target = noffset ↔ reader.Clear size noffset) := by
  obtain ⟨hleft, hright⟩ := h.compared hplcd hlt
  have hvsz : minfo.versz - crcBytes = size := by
    rw [h.minfo_eq]
    exact Nat.add_sub_cancel _ _
  have hdiv := Nat.div_add_mod noffset size
  have hrem := Nat.mod_lt noffset h.size_pos
  rw [Nat.mul_comm] at hdiv
  have hpart : noffset + partsz ≤ pieces.flatten.length := by
    obtain ⟨count, hcnt⟩ := h.whole
    obtain ⟨index, rfl⟩ := hdvd
    rw [hcnt] at hlt ⊢
    have hidx : index < count := Nat.lt_of_mul_lt_mul_left hlt
    rw [← Nat.mul_succ]
    exact Nat.mul_le_mul_left _ hidx
  by_cases heq : SizeT.sub reader.offset reader.held.length =
      SizeT.wrap (noffset / size % 2 ^ 32 * minfo.versz + noffset % size)
  · -- the reader stays where it is
    have hstay : readResume crc (blockGet (framed crc pieces)) ioq minfo buff reader noffset =
        some reader := by
      unfold readResume
      rw [hvsz]
      dsimp only
      rw [if_neg (not_not.2 heq)]
    refine ⟨reader, position, hstay, hplcd, ?_⟩
    obtain ⟨ideal, seen, rest, hby⟩ := hplcd
    have hoff := hby.offset_eq
    obtain ⟨hle, -⟩ := hby.seen_length
    obtain ⟨hseen, -⟩ := hby.lengths
    rw [hleft, hright, hoff] at heq
    unfold Reader.Clear
    generalize noffset % size = rem at hdiv hrem heq
    generalize noffset / size = quot at hdiv heq ⊢
    have hsub : position + reader.held.length + crcBytes * seen.length - reader.held.length =
        position + crcBytes * seen.length := by omega
    rw [hsub] at heq
    rw [hoff, hsub]
    constructor
    · rintro rfl
      have hquot : quot % 2 ^ 32 = quot := by
        -- a target whose I/O number does not fit lies behind everything that was read
        by_contra hne
        have hless : quot % 2 ^ 32 < quot := lt_of_le_of_ne (Nat.mod_le _ _) hne
        have hmul : (quot % 2 ^ 32 + 1) * size ≤ quot * size := Nat.mul_le_mul_right _ hless
        rw [Nat.succ_mul] at hmul
        have hfew : seen.length < quot % 2 ^ 32 := by
          by_contra hge
          have hcrc : crcBytes * (quot % 2 ^ 32) ≤ crcBytes * seen.length :=
            Nat.mul_le_mul_left _ (by omega)
          omega
        have hback : seen.length * size ≤ quot % 2 ^ 32 * size := Nat.mul_le_mul_right _ hfew.le
        omega
      rw [hquot] at heq
      have hsame : seen.length = quot := by
        have hcrc : crcBytes * seen.length = crcBytes * quot := by omega
        exact Nat.eq_of_mul_eq_mul_left (by decide) hcrc
      refine ⟨hquot ▸ Nat.mod_lt _ (by decide), .inl ?_⟩
      rw [hsame] at hle
      exact List.length_eq_zero_iff.1 (by omega)
    · rintro ⟨hfits, hclear⟩
      rw [Nat.mod_eq_of_lt hfits] at heq
      have hheld : reader.held = [] := by
        rcases hclear with hnil | hne
        · exact hnil
        · exact absurd (by omega) hne
      rw [hby.position_of_eq hrem (by omega) hheld heq, hdiv]
  · have hmod : noffset / size % 2 ^ 32 ≤ noffset / size := Nat.mod_le _ _
    have hmul : noffset / size % 2 ^ 32 * size ≤ noffset / size * size := Nat.mul_le_mul_right _ hmod
    obtain ⟨next, hnext, hplcd'⟩ := h.resume_of_ne buff hplcd heq (by omega)
    refine ⟨next, _, hnext, hplcd', ?_⟩
    rw [hleft, hright] at heq
    unfold Reader.Clear
    have hsize := h.size_pos
    generalize noffset % size = rem at hdiv hrem heq ⊢
    generalize noffset / size = quot at hdiv heq hmod hmul ⊢
    constructor
    · intro htgt
      have hfits : quot < 2 ^ 32 := by
        by_contra hge
        have hless : quot % 2 ^ 32 < quot := (Nat.mod_lt _ (by decide)).trans_le (Nat.not_lt.1 hge)
        have hstrict : quot % 2 ^ 32 * size < quot * size := Nat.mul_lt_mul_of_pos_right hless hsize
        omega
      refine ⟨hfits, .inr ?_⟩
      rwa [Nat.mod_eq_of_lt hfits, hdiv] at heq
    · rintro ⟨hfits, -⟩
      rw [Nat.mod_eq_of_lt hfits, hdiv]

end Positions

end Marfs.Io
