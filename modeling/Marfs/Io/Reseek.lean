import Marfs.Io.RoundTrip

/-!
# Moving a reader to another offset

`read_resume` compares where the data it holds starts with where the new offset lies, and reseeks if
they differ: it goes to the I/O of the offset, pretends that the ioblock is filled up to a point from
which whole ioblocks reach just before the offset, and throws these away.

Two readers that differ in the sum of CRCs that nobody checks, or in an error that lies before the
threshold, go on alike.
-/

namespace Marfs.Io

open Marfs.Machine

section Resume

variable (crc : Crc) (get : DalGet) (ioq : Ioqueue) (minfo : MetaInfo) (buff : Nat → UInt8)

/-- `align_ioblock`: the number of ioblocks to throw out, and the ioblock with its fake bytes, which
are whatever the buffer holds.  A threshold of zero is divided by. -/
def alignIoblock (trim : Nat) : Option (Int × Ioblock) :=
  if ioq.splitThreshold = 0 then none
  else
    let junkBlocks := toInt (trim / ioq.splitThreshold) + 1
    let trim := SizeT.sub trim (SizeT.wrap (ofInt (junkBlocks - 1) * ioq.splitThreshold))
    let falsefill := SizeT.sub ioq.splitThreshold trim
    some (junkBlocks, ⟨(List.range falsefill).map buff, falsefill⟩)

def produceJunk : Nat → Reader → Option Reader
  | 0, reader => some reader
  | junkBlocks + 1, reader =>
    match readProduce crc get ioq minfo reader with
    | some (.block _, reader) => produceJunk junkBlocks reader
    | _ => none

def readResume (reader : Reader) (noffset : Nat) : Option Reader :=
  let ioCount := noffset / (minfo.versz - crcBytes) % 2 ^ 32
  let trim := noffset % (minfo.versz - crcBytes)
  let curdata := reader.held.length
  if SizeT.sub reader.offset curdata ≠ SizeT.wrap (ioCount * minfo.versz + trim) then
    let reader :=
      { reader with
        crcsumchk := 0
        continuous := if ioCount ≠ 0 then false else reader.continuous
        offset := SizeT.wrap (ioCount * minfo.versz)
        -- an ioblock that holds data is released, an empty one is kept
        iob := if curdata ≠ 0 then none else reader.iob }
    if trim ≠ 0 then
      match alignIoblock ioq buff trim with
      | none => none
      | some (junkBlocks, iob) =>
        if junkBlocks < 0 then none
        else produceJunk crc get ioq minfo junkBlocks.toNat { reader with iob := some iob }
    else some reader
  else some reader

/-- A reader between calls: where it was last sent, and the ioblocks it produced since. -/
structure ReadSession where
  reader : Reader
  target : Nat
  blocks : List Ioblock
  deriving DecidableEq, Repr

def ReadSession.init : ReadSession := ⟨Reader.init, 0, []⟩

/-- The calls of the thread queue. -/
inductive ReadCall where
  | produce
  | resume (offset : Nat)
  deriving DecidableEq, Repr

def ReadSession.step (session : ReadSession) : ReadCall → Option ReadSession
  | .produce =>
    match readProduce crc get ioq minfo session.reader with
    | none => none
    | some (.block iob, reader) => some { session with reader := reader, blocks := session.blocks ++ [iob] }
    | some (.finished, reader) => some { session with reader := reader }
  | .resume offset =>
    (readResume crc get ioq minfo buff session.reader offset).map fun reader => ⟨reader, offset, []⟩

end Resume

/-! ## Readers that go on alike -/

structure BlockAlike (ioq : Ioqueue) (block block' : Ioblock) : Prop where
  data : block.data = block'.data
  errorEnd : block.errorEnd = block'.errorEnd ∨
    block.errorEnd ≤ ioq.splitThreshold ∧ block'.errorEnd ≤ ioq.splitThreshold

/-- The same position and the same data; a sum of CRCs only counts as long as it is checked. -/
structure Alike (ioq : Ioqueue) (reader reader' : Reader) : Prop where
  offset : reader.offset = reader'.offset
  iob : Option.Rel (BlockAlike ioq) reader.iob reader'.iob
  continuous : reader.continuous = reader'.continuous
  crcsumchk : reader.continuous = true → reader.crcsumchk = reader'.crcsumchk
  dataError : reader.dataError = reader'.dataError
  metaError : reader.metaError = reader'.metaError

/-- The same kind of work package, with the same data. -/
inductive ProducedAlike : Produced → Produced → Prop
  | block {iob iob' : Ioblock} (h : iob.data = iob'.data) : ProducedAlike (.block iob) (.block iob')
  | finished : ProducedAlike .finished .finished

section Alike

variable {crc : Crc} {get : DalGet} {ioq : Ioqueue} {minfo : MetaInfo} {reader reader' next' : Reader}
  {block block' : Ioblock}

theorem BlockAlike.refl (ioq : Ioqueue) (block : Ioblock) : BlockAlike ioq block block := ⟨rfl, .inl rfl⟩

theorem Alike.refl (ioq : Ioqueue) (reader : Reader) : Alike ioq reader reader := by
  refine ⟨rfl, ?_, rfl, fun _ => rfl, rfl, rfl⟩
  cases reader.iob with
  | none => exact .none
  | some block => exact .some (.refl ioq block)

theorem Alike.held (h : Alike ioq reader reader') : reader.held = reader'.held := by
  have hiob := h.iob
  unfold Reader.held
  cases hcur : reader.iob with
  | none =>
    rw [hcur] at hiob
    cases hcur' : reader'.iob with
    | none => rfl
    | some block' =>
      rw [hcur'] at hiob
      cases hiob
  | some block =>
    rw [hcur] at hiob
    cases hcur' : reader'.iob with
    | none =>
      rw [hcur'] at hiob
      cases hiob
    | some block' =>
      rw [hcur'] at hiob
      cases hiob with
      | some halk => exact halk.data

theorem Alike.setIob (h : Alike ioq reader reader') {iob iob' : Option Ioblock}
    (hiob : Option.Rel (BlockAlike ioq) iob iob') :
    Alike ioq { reader with iob := iob } { reader' with iob := iob' } :=
  ⟨h.offset, hiob, h.continuous, h.crcsumchk, h.dataError, h.metaError⟩

theorem BlockAlike.updateFill (h : BlockAlike ioq block block') (bytes : List UInt8) (badData : Bool) :
    BlockAlike ioq (block.updateFill bytes badData) (block'.updateFill bytes badData) where
  data := congrArg (· ++ bytes) h.data
  errorEnd := by
    cases badData with
    | true => exact .inl (congrArg (fun data => (data ++ bytes).length) h.data)
    | false => exact h.errorEnd

theorem reserveIoblock_alike {iob iob' : Option Ioblock} (h : Option.Rel (BlockAlike ioq) iob iob')
    {cur' : Ioblock} {push' : Option Ioblock} (hresv : reserveIoblock ioq iob' = some (cur', push')) :
    ∃ cur push, reserveIoblock ioq iob = some (cur, push) ∧ BlockAlike ioq cur cur' ∧
      Option.Rel (BlockAlike ioq) push push' := by
  cases h with
  | none =>
    obtain ⟨rfl, rfl⟩ := Prod.mk.inj (Option.some.inj hresv)
    exact ⟨_, _, rfl, .refl ioq _, .none⟩
  | @some block block' halk =>
    obtain ⟨data, errorEnd⟩ := block
    obtain ⟨data', errorEnd'⟩ := block'
    obtain ⟨hdata, herror⟩ := halk
    obtain rfl : data = data' := hdata
    unfold reserveIoblock at hresv ⊢
    dsimp only at hresv ⊢
    by_cases hroom : data.length < ioq.splitThreshold
    · rw [if_pos hroom] at hresv ⊢
      obtain ⟨rfl, rfl⟩ := Prod.mk.inj (Option.some.inj hresv)
      exact ⟨_, _, rfl, ⟨rfl, herror⟩, .none⟩
    · rw [if_neg hroom] at hresv ⊢
      by_cases hover : data.length > ioq.splitThreshold ∧ data.length > ioq.blocksz
      · rw [if_pos hover] at hresv
        cases hresv
      · rw [if_neg hover] at hresv ⊢
        obtain ⟨rfl, rfl⟩ := Prod.mk.inj (Option.some.inj hresv)
        refine ⟨_, _, rfl, ⟨rfl, .inl ?_⟩, .some ⟨rfl, herror⟩⟩
        -- the two errors are beyond the threshold together
        have hjunk : errorEnd > ioq.splitThreshold ↔ errorEnd' > ioq.splitThreshold := by
          have herror' : errorEnd = errorEnd' ∨
            errorEnd ≤ ioq.splitThreshold ∧ errorEnd' ≤ ioq.splitThreshold := herror
          omega
        simp only [hjunk]

/-- One I/O. -/
theorem readIo_alike (h : Alike ioq reader reader') (hblock : BlockAlike ioq block block') {toRead : Nat}
    (hread : readIo crc get ioq reader' block' toRead = some next') :
    ∃ next, readIo crc get ioq reader block toRead = some next ∧ Alike ioq next next' := by
  unfold readIo at hread ⊢
  by_cases hsmall : toRead ≤ crcBytes
  · rw [if_pos hsmall] at hread
    cases hread
  · rw [if_neg hsmall] at hread ⊢
    by_cases hover : block'.data.length + toRead > ioq.blocksz
    · rw [if_pos hover] at hread
      cases hread
    · rw [if_neg hover] at hread
      rw [hblock.data, if_neg hover, h.offset]
      dsimp only at hread ⊢
      obtain rfl := Option.some.inj hread
      refine ⟨_, rfl, rfl, .some (hblock.updateFill _ _), h.continuous, fun hcont => ?_, ?_,
        h.metaError⟩
      · dsimp only
        rw [h.crcsumchk hcont]
      · dsimp only
        rw [h.dataError]

theorem readLoop_alike {fuel : Nat} (h : Alike ioq reader reader') {push' : Ioblock}
    (hloop : readLoop crc get ioq minfo fuel reader' = some (push', next')) :
    ∃ push next, readLoop crc get ioq minfo fuel reader = some (push, next) ∧
      push.data = push'.data ∧ Alike ioq next next' := by
  induction fuel generalizing reader reader' with
  | zero => cases hloop
  | succ fuel ih =>
    rw [readLoop] at hloop ⊢
    cases hresv' : reserveIoblock ioq reader'.iob with
    | none =>
      rw [hresv'] at hloop
      cases hloop
    | some reserved =>
      obtain ⟨cur', pushed'⟩ := reserved
      obtain ⟨cur, pushed, hresv, hcur, hpush⟩ := reserveIoblock_alike h.iob hresv'
      rw [hresv'] at hloop
      rw [hresv]
      cases hpush with
      | some halk =>
        obtain ⟨rfl, rfl⟩ := Prod.mk.inj (Option.some.inj hloop)
        exact ⟨_, _, rfl, halk.data, h.setIob (.some hcur)⟩
      | none =>
        have htoRead : min minfo.versz (minfo.blocksz - reader.offset) =
            min minfo.versz (minfo.blocksz - reader'.offset) := by rw [h.offset]
        dsimp only at hloop ⊢
        rw [htoRead]
        by_cases hend : min minfo.versz (minfo.blocksz - reader'.offset) = 0
        · rw [if_pos hend] at hloop ⊢
          obtain ⟨rfl, rfl⟩ := Prod.mk.inj (Option.some.inj hloop)
          exact ⟨_, _, rfl, hcur.data, h.setIob .none⟩
        · rw [if_neg hend] at hloop ⊢
          cases hread' : readIo crc get ioq reader' cur'
              (min minfo.versz (minfo.blocksz - reader'.offset)) with
          | none =>
            rw [hread'] at hloop
            cases hloop
          | some middle' =>
            obtain ⟨middle, hread, hmiddle⟩ := readIo_alike h hcur hread'
            rw [hread'] at hloop
            rw [hread]
            exact ih hmiddle hloop

theorem readProduce_alike (h : Alike ioq reader reader') {produced' : Produced}
    (hprod : readProduce crc get ioq minfo reader' = some (produced', next')) :
    ∃ produced next, readProduce crc get ioq minfo reader = some (produced, next) ∧
      ProducedAlike produced produced' ∧ Alike ioq next next' := by
  rw [readProduce] at hprod ⊢
  have hoff := h.offset
  by_cases hend : reader'.offset ≥ minfo.blocksz
  · rw [if_pos hend] at hprod
    rw [if_pos (by omega)]
    have hmismatch : (reader.dataError = false ∧ reader.continuous = true ∧ reader.metaError = false ∧
        reader.crcsumchk ≠ minfo.crcsum) ↔ (reader'.dataError = false ∧ reader'.continuous = true ∧
        reader'.metaError = false ∧ reader'.crcsumchk ≠ minfo.crcsum) := by
      rw [← h.dataError, ← h.continuous, ← h.metaError]
      constructor
      · rintro ⟨hdata, hcont, hmeta, hsum⟩
        exact ⟨hdata, hcont, hmeta, h.crcsumchk hcont ▸ hsum⟩
      · rintro ⟨hdata, hcont, hmeta, hsum⟩
        exact ⟨hdata, hcont, hmeta, (h.crcsumchk hcont).symm ▸ hsum⟩
    have hmarked : Alike ioq
        { reader with dataError := reader.dataError || decide (reader.dataError = false ∧
            reader.continuous = true ∧ reader.metaError = false ∧ reader.crcsumchk ≠ minfo.crcsum) }
        { reader' with dataError := reader'.dataError || decide (reader'.dataError = false ∧
            reader'.continuous = true ∧ reader'.metaError = false ∧
            reader'.crcsumchk ≠ minfo.crcsum) } :=
      ⟨h.offset, h.iob, h.continuous, h.crcsumchk,
        congrArg₂ or h.dataError (decide_eq_decide.2 hmismatch), h.metaError⟩
    dsimp only at hprod ⊢
    have hiob := h.iob
    cases hcur : reader.iob with
    | none =>
      rw [hcur] at hiob
      cases hcur' : reader'.iob with
      | none =>
        rw [hcur'] at hprod
        obtain ⟨rfl, rfl⟩ := Prod.mk.inj (Option.some.inj hprod)
        exact ⟨_, _, rfl, .finished, hmarked.setIob .none⟩
      | some iob' =>
        rw [hcur'] at hiob
        cases hiob
    | some iob =>
      rw [hcur] at hiob
      cases hcur' : reader'.iob with
      | none =>
        rw [hcur'] at hiob
        cases hiob
      | some iob' =>
        rw [hcur'] at hiob hprod
        cases hiob with
        | some halk =>
          dsimp only at hprod ⊢
          rw [halk.data]
          split at hprod
          · rename_i hfill
            rw [if_pos hfill]
            obtain ⟨rfl, rfl⟩ := Prod.mk.inj (Option.some.inj hprod)
            exact ⟨_, _, rfl, .block halk.data, hmarked.setIob .none⟩
          · rename_i hemp
            rw [if_neg hemp]
            obtain ⟨rfl, rfl⟩ := Prod.mk.inj (Option.some.inj hprod)
            exact ⟨_, _, rfl, .finished, hmarked.setIob (.some halk)⟩
  · rw [if_neg hend] at hprod
    rw [if_neg (by omega), h.offset]
    obtain ⟨⟨push', last'⟩, hloop', heq⟩ := Option.map_eq_some_iff.1 hprod
    obtain ⟨rfl, rfl⟩ := Prod.mk.inj heq
    obtain ⟨push, last, hloop, hdata, hlast⟩ := readLoop_alike h hloop'
    rw [hloop]
    exact ⟨_, _, rfl, .block hdata, hlast⟩

end Alike

end Marfs.Io
