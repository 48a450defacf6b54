import Marfs.Io.ReseekSpec

/-!
# Runs of a reader that is sent about

Between any calls of `read_produce` and `read_resume`, what a reader produced since it was last sent to an
offset, and what it still produces, is the data from that offset on (`reseek_exact`), as long as no
comparison was misled; and a clear comparison is all that a call of `read_resume` needs.
-/

namespace Marfs.Io

open Marfs.Machine

section Sessions

variable (crc : Crc) (get : DalGet) (ioq : Ioqueue) (minfo : MetaInfo) (buff : Nat → UInt8)
  (partsz : Nat)

def WholeParts (blocks : List Ioblock) : Prop :=
  ∀ block ∈ blocks, 0 < block.data.length ∧ partsz ∣ block.data.length

def Delivers (reader : Reader) (remaining : List UInt8) : Prop :=
  ∃ fuel blocks last, readAll crc get ioq minfo fuel reader = some (blocks, last) ∧
    (blocks.map Ioblock.data).flatten = remaining ∧ WholeParts partsz blocks

/-- What was produced since the reader was last sent somewhere, and what follows, is the data of the
block from there on. -/
structure ReadSession.Exact (content : List UInt8) (session : ReadSession) : Prop where
  blocks : WholeParts partsz session.blocks
  delivers : ∃ remaining,
    content.drop session.target = (session.blocks.map Ioblock.data).flatten ++ remaining ∧
      Delivers crc get ioq minfo partsz session.reader remaining

def ReadSession.run (calls : List ReadCall) (session : ReadSession) : Option ReadSession :=
  calls.foldlM (fun session call => session.step crc get ioq minfo buff call) session

/-- The states of a reader that is sent to parts of its block, while its comparisons are clear. -/
inductive ReachableRead (content : List UInt8) : ReadSession → Prop
  | init : ReachableRead content .init
  | produce {session next : ReadSession} (h : ReachableRead content session)
      (hstep : session.step crc get ioq minfo buff .produce = some next) : ReachableRead content next
  | resume {session next : ReadSession} {noffset : Nat} (h : ReachableRead content session)
      (hlt : noffset < content.length) (hdvd : partsz ∣ noffset)
      (hclear : session.reader.Clear (minfo.versz - crcBytes) noffset)
      (hstep : session.step crc get ioq minfo buff (.resume noffset) = some next) :
      ReachableRead content next

end Sessions

section Runs

variable {crc : Crc} {get : DalGet} {ioq : Ioqueue} {size partsz : Nat} {minfo : MetaInfo}
  {pieces : List (List UInt8)} {reader : Reader} {session next : ReadSession}

theorem readAll_add {fuel : Nat} (more : Nat) {result : List Ioblock × Reader}
    (h : readAll crc get ioq minfo fuel reader = some result) :
    readAll crc get ioq minfo (fuel + more) reader = some result := by
  induction fuel generalizing reader result with
  | zero => cases h
  | succ fuel ih =>
    rw [readAll] at h
    rw [Nat.add_right_comm, readAll]
    cases hprod : readProduce crc get ioq minfo reader with
    | none =>
      rw [hprod] at h
      cases h
    | some produced =>
      obtain ⟨produced, next⟩ := produced
      rw [hprod] at h
      cases produced with
      | finished => exact h
      | block iob =>
        obtain ⟨⟨blocks, last⟩, hall, heq⟩ := Option.map_eq_some_iff.1 h
        dsimp only
        rw [ih hall]
        exact congrArg some heq

variable {position noffset : Nat}

theorem Readable.delivers (h : Readable crc ioq size partsz minfo pieces)
    (hplcd : Placed crc ioq size minfo pieces reader position) (hdvd : partsz ∣ position) :
    Delivers crc (blockGet (framed crc pieces)) ioq minfo partsz reader
      (pieces.flatten.drop position) := by
  have hfuel : pieces.flatten.length < position + (pieces.flatten.length + 1) := by omega
  obtain ⟨blocks, last, hall, hflat, hblk⟩ := h.all hplcd hfuel
  exact ⟨_, blocks, last, hall, hflat, hblk hdvd⟩

theorem Readable.position_of_delivers (h : Readable crc ioq size partsz minfo pieces)
    (hplcd : Placed crc ioq size minfo pieces reader position) (hlt : noffset < pieces.flatten.length)
    (hdelivers : Delivers crc (blockGet (framed crc pieces)) ioq minfo partsz reader
      (pieces.flatten.drop noffset)) : position = noffset := by
  have hfuel : pieces.flatten.length < position + (pieces.flatten.length + 1) := by omega
  obtain ⟨blocks, last, hall, hflat, -⟩ := h.all hplcd hfuel
  obtain ⟨fuel', blocks', last', hall', hflat', -⟩ := hdelivers
  have hlong := readAll_add fuel' hall
  have hlong' := readAll_add (pieces.flatten.length + 1) hall'
  rw [Nat.add_comm, hlong] at hlong'
  obtain ⟨rfl, -⟩ := Prod.mk.inj (Option.some.inj hlong')
  rw [hflat] at hflat'
  have hlen := congrArg List.length hflat'
  rw [List.length_drop, List.length_drop] at hlen
  obtain ⟨ideal, seen, rest, hby⟩ := hplcd
  have hle := hby.position_le
  omega

structure Tracked (crc : Crc) (ioq : Ioqueue) (size partsz : Nat) (minfo : MetaInfo)
    (pieces : List (List UInt8)) (session : ReadSession) (position : Nat) : Prop where
  placed : Placed crc ioq size minfo pieces session.reader position
  dvd : partsz ∣ position
  blocks : WholeParts partsz session.blocks
  produced : pieces.flatten.drop session.target =
    (session.blocks.map Ioblock.data).flatten ++ pieces.flatten.drop position

theorem Readable.exact (h : Readable crc ioq size partsz minfo pieces)
    (htrk : Tracked crc ioq size partsz minfo pieces session position) :
    session.Exact crc (blockGet (framed crc pieces)) ioq minfo partsz pieces.flatten :=
  ⟨htrk.blocks, _, htrk.produced, h.delivers htrk.placed htrk.dvd⟩

theorem Readable.step_produce (h : Readable crc ioq size partsz minfo pieces) (buff : Nat → UInt8)
    (htrk : Tracked crc ioq size partsz minfo pieces session position) :
    ∃ next position', session.step crc (blockGet (framed crc pieces)) ioq minfo buff .produce =
      some next ∧ Tracked crc ioq size partsz minfo pieces next position' := by
  obtain ⟨hplcd, hdvd, hblk, hproduced⟩ := htrk
  rw [ReadSession.step]
  rcases h.produce hplcd with ⟨-, last, hprod, hlast⟩ |
    ⟨push, last, hprod, hpos, hwhl, hdata, hlast⟩
  · rw [hprod]
    exact ⟨_, position, rfl, hlast, hdvd, hblk, hproduced⟩
  · rw [hprod]
    have hpush : partsz ∣ push.data.length := by
      rcases hwhl with hspl | hend
      · exact hspl ▸ h.queue.parts
      · rw [← Nat.dvd_add_right hdvd, hend]
        exact h.whole
    refine ⟨_, position + push.data.length, rfl, hlast, Nat.dvd_add hdvd hpush, ?_, ?_⟩
    · intro block hblock
      rcases List.mem_append.1 hblock with hold | hnew
      · exact hblk block hold
      · rw [List.mem_singleton.1 hnew]
        exact ⟨hpos, hpush⟩
    · dsimp only
      rw [hproduced, hdata, List.map_append, List.flatten_append, List.map_singleton,
        List.flatten_singleton, List.append_assoc]

theorem Readable.step_resume (h : Readable crc ioq size partsz minfo pieces) (buff : Nat → UInt8)
    (htrk : Tracked crc ioq size partsz minfo pieces session position) (hlt : noffset < pieces.flatten.length)
    (hdvd : partsz ∣ noffset) :
    ∃ next, session.step crc (blockGet (framed crc pieces)) ioq minfo buff (.resume noffset) =
        some next ∧
      (session.reader.Clear size noffset →
        Tracked crc ioq size partsz minfo pieces next noffset) ∧
      (next.Exact crc (blockGet (framed crc pieces)) ioq minfo partsz pieces.flatten →
        session.reader.Clear size noffset) := by
  obtain ⟨reader, target, hresume, hplcd, htgt⟩ := h.resume buff htrk.placed hlt hdvd
  refine ⟨⟨reader, noffset, []⟩, ?_, fun hclear => ?_, fun hexact => ?_⟩
  · rw [ReadSession.step, hresume]
    rfl
  · obtain rfl := htgt.2 hclear
    exact ⟨hplcd, hdvd, fun block hblock => absurd hblock List.not_mem_nil, rfl⟩
  · obtain ⟨remaining, hrem, hdelivers⟩ := hexact.delivers
    have hsame : remaining = pieces.flatten.drop noffset := hrem.symm
    rw [hsame] at hdelivers
    exact htgt.1 (h.position_of_delivers hplcd hlt hdelivers)

/-- The invariant of a run. -/
theorem Readable.reachable (h : Readable crc ioq size partsz minfo pieces) {buff : Nat → UInt8}
    (hreach : ReachableRead crc (blockGet (framed crc pieces)) ioq minfo buff partsz pieces.flatten
      session) : ∃ position, Tracked crc ioq size partsz minfo pieces session position := by
  have hvsz : minfo.versz - crcBytes = size := by
    rw [h.minfo_eq]
    exact Nat.add_sub_cancel _ _
  induction hreach with
  | init =>
    exact ⟨0, h.placed_init, Nat.dvd_zero _, fun block hblock => absurd hblock List.not_mem_nil, rfl⟩
  | produce _ hstep ih =>
    obtain ⟨position, htrk⟩ := ih
    obtain ⟨next, position', hnext, htrk'⟩ := h.step_produce buff htrk
    obtain rfl := Option.some.inj (hstep.symm.trans hnext)
    exact ⟨position', htrk'⟩
  | @resume _ _ noffset _ hlt hdvd hclear hstep ih =>
    obtain ⟨position, htrk⟩ := ih
    obtain ⟨next, hnext, htrk', -⟩ := h.step_resume buff htrk hlt hdvd
    obtain rfl := Option.some.inj (hstep.symm.trans hnext)
    rw [hvsz] at hclear
    exact ⟨noffset, htrk' hclear⟩

end Runs

/-! ## The result -/

def Sized (versz partsz : Nat) : Prop :=
  versz + partsz < SizeT.modulus ∧ 2 * versz < SizeT.modulus ∧
    (versz - crcBytes) / partsz < 2 ^ 31

instance (versz partsz : Nat) : Decidable (Sized versz partsz) :=
  inferInstanceAs (Decidable (_ ∧ _))

variable {versz partsz : Nat} {ioq : Ioqueue}

theorem readable_of_sized (crc : Crc) (hvsz : crcBytes < versz) (hpsz : 0 < partsz)
    (hsized : Sized versz partsz) (hioq : createIoqueue versz partsz .read = some ioq)
    {pieces : List (List UInt8)} (hcut : Pieces (versz - crcBytes) pieces)
    (hwhl : partsz ∣ pieces.flatten.length) (hmax : (framed crc pieces).length < SizeT.modulus) :
    Readable crc ioq (versz - crcBytes) partsz
      ⟨versz - crcBytes + crcBytes, (framed crc pieces).length, crcSum crc pieces⟩ pieces := by
  obtain ⟨hsum, hdouble, hcnt⟩ := hsized
  obtain ⟨ioq', hioq', hspl, hbsz⟩ := createIoqueue_read hvsz hpsz
  obtain rfl := Option.some.inj (hioq.symm.trans hioq')
  have hint : toInt ((versz - crcBytes) / partsz) = (((versz - crcBytes) / partsz : Nat) : Int) := by
    unfold toInt
    dsimp only
    rw [Nat.mod_eq_of_lt (by omega), if_pos (by omega)]
  have hmul : (versz - crcBytes) / partsz * partsz ≤ versz - crcBytes := Nat.div_mul_le_self _ _
  have hnext := Nat.lt_mul_div_succ (versz - crcBytes) hpsz
  rw [Nat.mul_succ, Nat.mul_comm] at hnext
  have hfits : Fits versz partsz := by
    refine ⟨hsum, ?_⟩
    rcases Nat.lt_or_ge (versz - crcBytes) partsz with hsmall | hlarge
    · exact .inl hsmall
    · right
      have hpos : 0 < (versz - crcBytes) / partsz := Nat.div_pos hlarge hpsz
      rw [hint, Int.toNat_natCast]
      exact ⟨by omega, by omega⟩
  have hthr : ioq.splitThreshold = (partCount versz partsz).toNat * partsz ∧
      versz - crcBytes < (partCount versz partsz).toNat * partsz + partsz ∧
      (partCount versz partsz).toNat * partsz < SizeT.modulus := by
    rw [hspl, partCount]
    split_ifs with hone
    · rw [Int.toNat_one, ofInt_toNat Int.one_nonneg (by decide), Int.toNat_one, Nat.one_mul]
      exact ⟨SizeT.wrap_of_lt (by omega), by omega, by omega⟩
    · have hself := Nat.le_mul_of_pos_right ((versz - crcBytes) / partsz) hpsz
      rw [hint, ofInt_toNat (Int.natCast_nonneg _) (by rw [Int.toNat_natCast]; omega),
        Int.toNat_natCast]
      exact ⟨SizeT.wrap_of_lt (by omega), by omega, by omega⟩
  obtain ⟨hval, hgap, hlt⟩ := hthr
  exact ⟨readQueue_of_fits hvsz hpsz hfits hspl hbsz, Nat.sub_pos_of_lt hvsz, hpsz,
    hval ▸ hgap, hval ▸ hlt, by omega, hcut, hwhl, rfl, hmax⟩

/-- The blocks of whole parts of one I/O and part size, their reader, and any run of it in which no
comparison was misled: what was produced since the reader was last sent to an offset and what still
follows is the data from there on, in ioblocks of whole parts; and sending it to another part does the
same exactly if the comparison is not misled then. -/
theorem reseek_exact (crc : Crc) (buff : Nat → UInt8) (hversz : crcBytes < versz) (hpartsz : 0 < partsz)
    (hsized : Sized versz partsz) {wioq : Ioqueue} (hwioq : createIoqueue versz partsz .write = some wioq)
    (hioq : createIoqueue versz partsz .read = some ioq) {parts : List (List UInt8)}
    (hparts : ∀ part ∈ parts, part.length = partsz) {writer : Writer}
    (hwriter : writeBlock crc wioq versz parts = some writer) (hmax : writer.minfo.blocksz < SizeT.modulus)
    {session : ReadSession}
    (hreach : ReachableRead crc (blockGet writer.stored.flatten) ioq writer.minfo buff partsz
      parts.flatten session) :
    session.Exact crc (blockGet writer.stored.flatten) ioq writer.minfo partsz parts.flatten ∧
      (session.step crc (blockGet writer.stored.flatten) ioq writer.minfo buff .produce).isSome ∧
      ∀ noffset, noffset < parts.flatten.length → partsz ∣ noffset →
        ((∃ next, session.step crc (blockGet writer.stored.flatten) ioq writer.minfo buff
            (.resume noffset) = some next ∧
          next.Exact crc (blockGet writer.stored.flatten) ioq writer.minfo partsz parts.flatten) ↔
          session.reader.Clear (versz - crcBytes) noffset) := by
  obtain ⟨wioq', hwioq', hwsplit, hwblocksz⟩ := createIoqueue_write hversz hpartsz
  obtain rfl := Option.some.inj (hwioq.symm.trans hwioq')
  obtain ⟨writer', pieces, hblock, hstored, hcut, hflatten, hminfo⟩ :=
    writeBlock_spec crc (writeQueue_of_lt hversz hsized.1 hwsplit hwblocksz) hparts
  rw [Nat.sub_add_cancel hversz.le] at hblock
  obtain rfl := Option.some.inj (hwriter.symm.trans hblock)
  have hwhole : partsz ∣ pieces.flatten.length := by
    rw [hflatten, flatten_length hparts]
    exact Nat.dvd_mul_left _ _
  have hframed : writer.stored.flatten = framed crc pieces := by
    rw [hstored]
    rfl
  rw [hminfo] at hmax
  have hreadable := readable_of_sized crc hversz hpartsz hsized hioq hcut hwhole hmax
  rw [← hflatten, hframed, hminfo] at hreach ⊢
  obtain ⟨position, htracked⟩ := hreadable.reachable hreach
  refine ⟨hreadable.exact htracked, ?_, fun noffset hlt hdvd => ?_⟩
  · obtain ⟨next, position', hnext, -⟩ := hreadable.step_produce buff htracked
    rw [hnext]
    rfl
  · obtain ⟨next, hnext, hclear, hexact⟩ := hreadable.step_resume buff htracked hlt hdvd
    constructor
    · rintro ⟨other, hother, hexact'⟩
      obtain rfl := Option.some.inj (hnext.symm.trans hother)
      exact hexact hexact'
    · intro hok
      exact ⟨next, hnext, hreadable.exact (hclear hok)⟩

/-- Six parts of one byte, which are one I/O of ten bytes with its CRC. -/
def sampleParts : List (List UInt8) := [[0], [1], [2], [3], [4], [5]]

def sampleStored : List UInt8 := [0, 1, 2, 3, 4, 5, 0, 0, 0, 0]

/-- The queue of their reader. -/
def sampleIoq : Ioqueue := ⟨6, 1, 10, 6, 16⟩

/-- A reader that was sent to the second byte: it holds what follows. -/
def sampleSession : ReadSession := ⟨⟨10, some ⟨[1, 2, 3, 4, 5], 0⟩, 0, true, false, false⟩, 1, []⟩

theorem sampleSession_reachable :
    ReachableRead (fun _ => 0) (blockGet sampleStored) sampleIoq ⟨10, 10, 0⟩ (fun _ => 0) 1
      sampleParts.flatten sampleSession := by
  have hclear : ReadSession.init.reader.Clear 6 1 := by decide
  have hstep : ReadSession.init.step (fun _ => 0) (blockGet sampleStored) sampleIoq ⟨10, 10, 0⟩
      (fun _ => 0) (.resume 1) = some sampleSession := by decide +kernel
  exact .resume .init (by decide) (Nat.one_dvd _) hclear hstep

/-- It goes on from there, and can be sent to any byte but the sixth. -/
theorem reseek_exact_sample :
    sampleSession.Exact (fun _ => 0) (blockGet sampleStored) sampleIoq ⟨10, 10, 0⟩ 1
        sampleParts.flatten ∧
      (sampleSession.step (fun _ => 0) (blockGet sampleStored) sampleIoq ⟨10, 10, 0⟩ (fun _ => 0)
        .produce).isSome ∧
      ∀ noffset, noffset < sampleParts.flatten.length → 1 ∣ noffset →
        ((∃ next, sampleSession.step (fun _ => 0) (blockGet sampleStored) sampleIoq ⟨10, 10, 0⟩
            (fun _ => 0) (.resume noffset) = some next ∧
          next.Exact (fun _ => 0) (blockGet sampleStored) sampleIoq ⟨10, 10, 0⟩ 1
            sampleParts.flatten) ↔
          sampleSession.reader.Clear (10 - crcBytes) noffset) := by
  have hversz : crcBytes < 10 := by decide
  have hsized : Sized 10 1 := by decide
  have hparts : ∀ part ∈ sampleParts, part.length = 1 := by decide
  have hwriter : writeBlock (fun _ => 0) ⟨6, 1, 10, 6, 11⟩ 10 sampleParts =
      some ⟨none, ⟨10, 10, 0⟩, [sampleStored]⟩ := by decide +kernel
  exact reseek_exact (fun _ => 0) (fun _ => 0) hversz (Nat.one_pos) hsized rfl rfl hparts hwriter
    (by decide) sampleSession_reachable

/-- Sent to the second byte and then, before anything was taken, to the sixth, the reader stays where it
is: its next ioblock starts with the second byte. -/
theorem resume_misled :
    ¬ ∀ session, ReadSession.run (fun _ => 0) (blockGet sampleStored) sampleIoq ⟨10, 10, 0⟩
        (fun _ => 0) [.resume 1, .resume 5, .produce] .init = some session →
      session.Exact (fun _ => 0) (blockGet sampleStored) sampleIoq ⟨10, 10, 0⟩ 1
        sampleParts.flatten := by
  intro h
  have hexact := h ⟨⟨10, none, 0, true, false, false⟩, 5, [⟨[1, 2, 3, 4, 5], 0⟩]⟩ (by decide +kernel)
  obtain ⟨remaining, hremaining, -⟩ := hexact.delivers
  have hlength := congrArg List.length hremaining
  have hleft : (sampleParts.flatten.drop 5).length = 1 := by decide
  rw [hleft, List.length_append] at hlength
  have hproduced : ([⟨[1, 2, 3, 4, 5], 0⟩].map Ioblock.data).flatten.length = 5 := by decide
  rw [hproduced] at hlength
  omega

end Marfs.Io
