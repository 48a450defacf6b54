import Mathlib.Algebra.BigOperators.Group.List.Basic
import Mathlib.Data.List.Flatten
import Marfs.Io.Threads
import Marfs.Ne.Ioblock

/-!
# What is written of a block is read back

A writer cuts its data into pieces of one I/O without its CRC, the last one possibly shorter, and stores
each with its CRC behind it.  A reader takes the pieces up again and pushes whole parts.  Both keep what
they hold below the threshold before they add to it, so that a buffer never overflows.  All of it rests on
the number of parts being positive as an `int`.
-/

namespace Marfs.Io

open Marfs.Machine List

/-! ## Pieces -/

def frame (crc : Crc) (piece : List UInt8) : List UInt8 :=
  piece ++ leBytes crcBytes (crc piece).toNat

structure Pieces (size : Nat) (pieces : List (List UInt8)) : Prop where
  full : ∀ piece ∈ pieces.dropLast, piece.length = size
  bound : ∀ piece ∈ pieces, 0 < piece.length ∧ piece.length ≤ size

def framed (crc : Crc) (pieces : List (List UInt8)) : List UInt8 := (pieces.map (frame crc)).flatten

def crcSum (crc : Crc) (pieces : List (List UInt8)) : Nat := (pieces.map fun p => (crc p).toNat).sum

section Pieces

variable {crc : Crc} {size : Nat} {piece : List UInt8} {pieces rest : List (List UInt8)}

@[simp] theorem frame_length (crc : Crc) (piece : List UInt8) :
    (frame crc piece).length = piece.length + crcBytes := by
  rw [frame, length_append, leBytes_length]

@[simp] theorem framed_append : framed crc (pieces ++ rest) = framed crc pieces ++ framed crc rest := by
  rw [framed, map_append, flatten_append, framed, framed]

@[simp] theorem framed_cons : framed crc (piece :: rest) = frame crc piece ++ framed crc rest := rfl

@[simp] theorem framed_nil : framed crc [] = [] := rfl

theorem crcSum_append : crcSum crc (pieces ++ rest) = crcSum crc pieces + crcSum crc rest := by
  rw [crcSum, map_append, sum_append, crcSum, crcSum]

@[simp] theorem crcSum_singleton : crcSum crc [piece] = (crc piece).toNat := by
  simp [crcSum]

theorem Pieces.cons (h : Pieces size (pieces ++ piece :: rest)) (hrest : rest ≠ []) :
    piece.length = size := by
  refine h.full piece ?_
  rw [dropLast_append_of_ne_nil (cons_ne_nil _ _), dropLast_cons_of_ne_nil hrest]
  exact mem_append_right _ mem_cons_self

theorem length_le_framed (crc : Crc) (pieces : List (List UInt8)) :
    pieces.length ≤ (framed crc pieces).length := by
  induction pieces with
  | nil => exact le_rfl
  | cons piece pieces ih =>
    rw [framed_cons, length_append, frame_length, length_cons, crcBytes]
    omega

end Pieces

/-! ## Writing -/

structure Writing (crc : Crc) (size : Nat) (writer : Writer) (pieces : List (List UInt8))
    (content : List UInt8) : Prop where
  stored : writer.stored = pieces.map (frame crc)
  versz : writer.minfo.versz = size + crcBytes
  blocksz : writer.minfo.blocksz = (framed crc pieces).length
  crcsum : writer.minfo.crcsum = crcSum crc pieces
  content_eq : content = pieces.flatten ++ writer.iob.elim [] Ioblock.data

section Write

variable {crc : Crc} {ioq : Ioqueue} {size : Nat} {writer : Writer} {pieces : List (List UInt8)}
  {content : List UInt8}

theorem Writing.put (h : Writing crc size writer pieces content) (data : List UInt8) (cur : Option Ioblock)
    (hcur : writer.iob.elim [] Ioblock.data = data ++ cur.elim [] Ioblock.data) :
    Writing crc size { writer.put crc data with iob := cur } (pieces ++ [data]) content where
  stored := by
    rw [map_append, ← h.stored]
    rfl
  versz := h.versz
  blocksz := by
    rw [framed_append, length_append, ← h.blocksz, framed_cons, framed_nil, List.append_nil,
      frame_length]
    rfl
  crcsum := by
    rw [crcSum_append, ← h.crcsum, crcSum_singleton]
    rfl
  content_eq := by
    rw [h.content_eq, hcur, flatten_append, flatten_singleton, append_assoc]

theorem writeConsume_eq (h : Writing crc size writer pieces content) {iob : Ioblock}
    (hpos : 0 < iob.data.length) (hle : iob.data.length ≤ size) (hroom : size + crcBytes ≤ ioq.blocksz) :
    writeConsume crc ioq writer iob = some (writer.put crc iob.data) := by
  have hvsz := h.versz
  unfold writeConsume
  dsimp only
  rw [if_neg (by omega), if_pos hpos, if_neg (by omega)]

structure WriteQueue (ioq : Ioqueue) (size partsz : Nat) : Prop where
  pos : 0 < size
  split : ioq.splitThreshold = size
  blocksz : ioq.blocksz = size + crcBytes + partsz

variable {partsz : Nat} {parts : List (List UInt8)}

theorem pushFull_spec (hioq : WriteQueue ioq size partsz) {fuel : Nat}
    (h : Writing crc size writer pieces content) (hfull : ∀ piece ∈ pieces, piece.length = size)
    (hfill : writer.fill ≤ size + partsz) (hfuel : writer.fill < fuel) :
    ∃ writer' cur pieces', pushFull crc ioq fuel writer = some writer' ∧ writer'.iob = some cur ∧
      cur.data.length < size ∧ Writing crc size writer' pieces' content ∧
      ∀ piece ∈ pieces', piece.length = size := by
  obtain ⟨hsize, hspl, hbsz⟩ := hioq
  induction fuel generalizing writer pieces with
  | zero => exact absurd hfuel (Nat.not_lt_zero _)
  | succ fuel ih =>
    obtain ⟨iob, minfo, stored⟩ := writer
    cases iob with
    | none =>
      refine ⟨_, ⟨[], 0⟩, pieces, rfl, rfl, hsize, ⟨h.stored, h.versz, h.blocksz, h.crcsum, ?_⟩, hfull⟩
      exact h.content_eq
    | some prev =>
      have hlen : prev.data.length ≤ size + partsz := hfill
      rw [pushFull]
      by_cases hroom : prev.data.length < size
      · refine ⟨_, prev, pieces, ?_, rfl, hroom, h, hfull⟩
        simp only [reserveIoblock, hspl, if_pos hroom]
      · have hover : ¬(prev.data.length > size ∧ prev.data.length > ioq.blocksz) := by
          rw [hbsz]
          omega
        have htake : (prev.data.take size).length = size := by
          rw [length_take]
          omega
        have hconsume : writeConsume crc ioq ⟨some prev, minfo, stored⟩
            { prev with data := prev.data.take size } =
              some (Writer.put crc ⟨some prev, minfo, stored⟩ (prev.data.take size)) :=
          writeConsume_eq h (by dsimp only; omega) htake.le (by omega)
        simp only [reserveIoblock, hspl, if_neg hroom, if_neg hover, Option.bind_eq_bind, hconsume,
          Option.bind_some]
        refine ih (h.put _ _ (take_append_drop size prev.data).symm) ?_ ?_ ?_
        · intro piece hpiece
          rcases List.mem_append.1 hpiece with hold | hnew
          · exact hfull piece hold
          · rw [List.mem_singleton.1 hnew, htake]
        · have hdrop : (prev.data.drop size).length ≤ prev.data.length := by
            rw [length_drop]
            omega
          exact hdrop.trans hlen
        · have hdrop : (prev.data.drop size).length < prev.data.length := by
            rw [length_drop]
            omega
          exact hdrop.trans_le (Nat.le_of_lt_succ hfuel)

theorem writePart_spec (hioq : WriteQueue ioq size partsz) {part : List UInt8} (hpart : part.length = partsz)
    (h : Writing crc size writer pieces content) (hfull : ∀ piece ∈ pieces, piece.length = size)
    (hfill : writer.fill ≤ size + partsz) :
    ∃ writer' pieces', writePart crc ioq writer part = some writer' ∧
      Writing crc size writer' pieces' (content ++ part) ∧
      (∀ piece ∈ pieces', piece.length = size) ∧ writer'.fill ≤ size + partsz := by
  obtain ⟨pushed, cur, pieces', hpush, hcur, hroom, hpushed, hfull'⟩ :=
    pushFull_spec hioq h hfull hfill (Nat.lt_succ_self _)
  have hheld : pushed.fill = cur.data.length := by
    rw [Writer.fill, hcur]
    rfl
  have hfits : ¬pushed.fill + part.length > ioq.blocksz := by
    rw [hheld, hioq.blocksz, hpart]
    omega
  have hwrite : writePart crc ioq writer part =
      some { pushed with iob := some (cur.updateFill part false) } := by
    rw [writePart, hpush, Option.bind_eq_bind, Option.bind_some, if_neg hfits, hcur]
    rfl
  refine ⟨_, pieces', hwrite,
    ⟨hpushed.stored, hpushed.versz, hpushed.blocksz, hpushed.crcsum, ?_⟩, hfull', ?_⟩
  · rw [hpushed.content_eq, hcur, append_assoc]
    rfl
  · have hlen : (cur.data ++ part).length ≤ size + partsz := by
      rw [length_append, hpart]
      omega
    exact hlen

theorem writeParts_spec (hioq : WriteQueue ioq size partsz) (hparts : ∀ part ∈ parts, part.length = partsz)
    (h : Writing crc size writer pieces content) (hfull : ∀ piece ∈ pieces, piece.length = size)
    (hfill : writer.fill ≤ size + partsz) :
    ∃ writer' pieces', parts.foldlM (writePart crc ioq) writer = some writer' ∧
      Writing crc size writer' pieces' (content ++ parts.flatten) ∧
      (∀ piece ∈ pieces', piece.length = size) ∧ writer'.fill ≤ size + partsz := by
  induction parts generalizing writer pieces content with
  | nil =>
    refine ⟨writer, pieces, rfl, ?_, hfull, hfill⟩
    rwa [flatten_nil, List.append_nil]
  | cons part parts ih =>
    obtain ⟨next, pieces', hnext, hwr, hfull', hfill'⟩ :=
      writePart_spec hioq (hparts part mem_cons_self) h hfull hfill
    obtain ⟨last, pieces'', hlast, hrest⟩ :=
      ih (fun p hp => hparts p (mem_cons_of_mem part hp)) hwr hfull' hfill'
    rw [append_assoc] at hrest
    refine ⟨last, pieces'', ?_, hrest⟩
    rw [foldlM_cons, hnext]
    exact hlast

theorem terminateThread_spec (hioq : WriteQueue ioq size partsz) (h : Writing crc size writer pieces content)
    (hfull : ∀ piece ∈ pieces, piece.length = size) (hfill : writer.fill ≤ size + partsz) :
    ∃ writer' pieces', terminateThread crc ioq writer = some writer' ∧ writer'.iob = none ∧
      Writing crc size writer' pieces' content ∧ Pieces size pieces' := by
  have hpcs : ∀ {pieces : List (List UInt8)}, (∀ piece ∈ pieces, piece.length = size) →
      Pieces size pieces := fun hfull =>
    ⟨fun piece hpiece => hfull piece (dropLast_subset _ hpiece),
      fun piece hpiece => ⟨hfull piece hpiece ▸ hioq.pos, (hfull piece hpiece).le⟩⟩
  rw [terminateThread]
  split
  · next hnone => exact ⟨writer, pieces, rfl, hnone, h, hpcs hfull⟩
  · obtain ⟨pushed, cur, pieces', hpush, hcur, hroom, hpushed, hfull'⟩ :=
      pushFull_spec hioq h hfull hfill (Nat.lt_succ_self _)
    rw [hpush, Option.bind_eq_bind, Option.bind_some, hcur]
    dsimp only
    by_cases hpos : cur.data.length > 0
    · rw [if_pos hpos, writeConsume_eq hpushed hpos hroom.le (by rw [hioq.blocksz]; omega)]
      have hlast := hpushed.put cur.data none (by rw [hcur]; exact (List.append_nil _).symm)
      refine ⟨_, pieces' ++ [cur.data], rfl, rfl, hlast, ⟨?_, ?_⟩⟩
      · rw [dropLast_concat]
        exact hfull'
      · intro piece hpiece
        rcases List.mem_append.1 hpiece with hold | hnew
        · exact (hpcs hfull').bound piece hold
        · rw [List.mem_singleton.1 hnew]
          exact ⟨hpos, hroom.le⟩
    · rw [if_neg hpos]
      have hnil : cur.data = [] := List.length_eq_zero_iff.1 (Nat.eq_zero_of_not_pos hpos)
      refine ⟨_, pieces', rfl, rfl, ⟨hpushed.stored, hpushed.versz, hpushed.blocksz, hpushed.crcsum, ?_⟩,
        hpcs hfull'⟩
      rw [hpushed.content_eq, hcur]
      exact congrArg (pieces'.flatten ++ ·) hnil

theorem writeBlock_spec (crc : Crc) (hioq : WriteQueue ioq size partsz)
    (hparts : ∀ part ∈ parts, part.length = partsz) :
    ∃ writer pieces, writeBlock crc ioq (size + crcBytes) parts = some writer ∧
      writer.stored = pieces.map (frame crc) ∧ Pieces size pieces ∧ pieces.flatten = parts.flatten ∧
      writer.minfo = ⟨size + crcBytes, (framed crc pieces).length, crcSum crc pieces⟩ := by
  have hinit : Writing crc size ⟨none, ⟨size + crcBytes, 0, 0⟩, []⟩ [] [] := ⟨rfl, rfl, rfl, rfl, rfl⟩
  obtain ⟨written, pieces, hwrit, hwr, hfull, hfill⟩ :=
    writeParts_spec hioq hparts hinit (fun _ h => absurd h not_mem_nil) (Nat.zero_le _)
  obtain ⟨writer, pieces', hterm, hnone, hlast, hpcs⟩ := terminateThread_spec hioq hwr hfull hfill
  refine ⟨writer, pieces', ?_, hlast.stored, hpcs, ?_, ?_⟩
  · rw [writeBlock, hwrit]
    exact hterm
  · have hcont := hlast.content_eq
    rw [hnone, nil_append] at hcont
    rw [hcont]
    exact (List.append_nil _).symm
  · rw [← hlast.versz, ← hlast.blocksz, ← hlast.crcsum]

end Write

end Marfs.Io
