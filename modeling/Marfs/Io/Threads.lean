import Marfs.Io.Ioqueue
import Marfs.Machine.Bytes

/-!
# The threads of a block

The writer thread appends a CRC to each ioblock and puts it out; the reader thread reads one I/O after
the other, checks the CRC, and pushes ioblocks of whole parts.  Functions are `none` where the code fails
or where a buffer would be written to beyond its end.  Locks are acquired and puts succeed.
-/

namespace Marfs.Io

open Marfs.Machine

abbrev Crc := List UInt8 → UInt32

/-- `meta_info`, as far as the threads use it. -/
structure MetaInfo where
  versz : Nat
  blocksz : Nat
  crcsum : Nat
  deriving DecidableEq, Repr

/-! ## Writing -/

structure Writer where
  iob : Option Ioblock
  minfo : MetaInfo
  stored : List (List UInt8)
  deriving DecidableEq, Repr

def Writer.put (crc : Crc) (writer : Writer) (data : List UInt8) : Writer :=
  let sum := (crc data).toNat
  let minfo :=
    { writer.minfo with
      crcsum := writer.minfo.crcsum + sum
      blocksz := writer.minfo.blocksz + (data.length + crcBytes) }
  { writer with minfo := minfo, stored := writer.stored ++ [data ++ leBytes crcBytes sum] }

def writeConsume (crc : Crc) (ioq : Ioqueue) (writer : Writer) (iob : Ioblock) : Option Writer :=
  let datasz := iob.data.length
  if datasz > writer.minfo.versz - crcBytes then none
  else if datasz > 0 then
    -- the CRC goes behind the data
    if datasz + crcBytes > ioq.blocksz then none else some (writer.put crc iob.data)
  else some writer

def pushFull (crc : Crc) (ioq : Ioqueue) : Nat → Writer → Option Writer
  | 0, _ => none
  | fuel + 1, writer =>
    match reserveIoblock ioq writer.iob with
    | none => none
    | some (cur, none) => some { writer with iob := some cur }
    | some (cur, some push) => do
      let writer ← writeConsume crc ioq writer push
      pushFull crc ioq fuel { writer with iob := some cur }

def Writer.fill (writer : Writer) : Nat := (writer.iob.elim [] Ioblock.data).length

def writePart (crc : Crc) (ioq : Ioqueue) (writer : Writer) (part : List UInt8) : Option Writer := do
  let writer ← pushFull crc ioq (writer.fill + 1) writer
  if writer.fill + part.length > ioq.blocksz then none
  else some { writer with iob := writer.iob.map fun iob => iob.updateFill part false }

def terminateThread (crc : Crc) (ioq : Ioqueue) (writer : Writer) : Option Writer :=
  match writer.iob with
  | none => some writer
  | some _ => do
    let writer ← pushFull crc ioq (writer.fill + 1) writer
    match writer.iob with
    | none => some writer
    | some iob =>
      if iob.data.length > 0 then
        let writer ← writeConsume crc ioq writer iob
        some { writer with iob := none }
      else some { writer with iob := none }

def writeBlock (crc : Crc) (ioq : Ioqueue) (versz : Nat) (parts : List (List UInt8)) :
    Option Writer := do
  let writer ← parts.foldlM (writePart crc ioq) ⟨none, ⟨versz, 0, 0⟩, []⟩
  terminateThread crc ioq writer

/-! ## Reading -/

/-- The DAL's `get`: for a size and an offset, what it returns and what the buffer holds then. -/
abbrev DalGet := Nat → Nat → Nat × List UInt8

def blockGet (stored : List UInt8) : DalGet := fun size offset =>
  let bytes := (stored.drop offset).take size
  (bytes.length, bytes ++ List.replicate (size - bytes.length) 0)

/-- The state of a block that is read. -/
structure Reader where
  offset : Nat
  iob : Option Ioblock
  crcsumchk : Nat
  continuous : Bool
  dataError : Bool
  metaError : Bool
  deriving DecidableEq, Repr

def Reader.init : Reader := ⟨0, none, 0, true, false, false⟩

inductive Produced where
  | block (iob : Ioblock)
  | finished
  deriving DecidableEq, Repr

section Read

variable (crc : Crc) (get : DalGet) (ioq : Ioqueue) (minfo : MetaInfo)

def readIo (reader : Reader) (cur : Ioblock) (toRead : Nat) : Option Reader :=
  if toRead ≤ crcBytes then none
  else if cur.data.length + toRead > ioq.blocksz then none
  else
    let (readData, buff) := get toRead reader.offset
    let data := buff.take (toRead - crcBytes)
    let scrc := readLe ((buff.drop (toRead - crcBytes)).take crcBytes)
    let short := readData < toRead
    let bad := short ∨ (crc data).toNat ≠ scrc
    some
      { reader with
        offset := reader.offset + toRead
        iob := some (cur.updateFill data (decide bad))
        crcsumchk := if short then reader.crcsumchk else reader.crcsumchk + scrc
        dataError := reader.dataError || decide bad }

def readLoop : Nat → Reader → Option (Ioblock × Reader)
  | 0, _ => none
  | fuel + 1, reader =>
    match reserveIoblock ioq reader.iob with
    | none => none
    | some (cur, some push) => some (push, { reader with iob := some cur })
    | some (cur, none) =>
      let toRead := min minfo.versz (minfo.blocksz - reader.offset)
      if toRead = 0 then some (cur, { reader with iob := none })
      else
        match readIo crc get ioq reader cur toRead with
        | none => none
        | some reader => readLoop fuel reader

def readProduce (reader : Reader) : Option (Produced × Reader) :=
  if reader.offset ≥ minfo.blocksz then
    let mismatch := reader.dataError = false ∧ reader.continuous = true ∧ reader.metaError = false ∧
      reader.crcsumchk ≠ minfo.crcsum
    let reader := { reader with dataError := reader.dataError || decide mismatch }
    match reader.iob with
    | some iob =>
      if iob.data.length ≠ 0 then some (.block iob, { reader with iob := none })
      else some (.finished, reader)
    | none => some (.finished, reader)
  else
    (readLoop crc get ioq minfo (minfo.blocksz - reader.offset + 1) reader).map fun (push, reader) =>
      (.block push, reader)

def readAll : Nat → Reader → Option (List Ioblock × Reader)
  | 0, _ => none
  | fuel + 1, reader =>
    match readProduce crc get ioq minfo reader with
    | none => none
    | some (.finished, reader) => some ([], reader)
    | some (.block iob, reader) => (readAll fuel reader).map fun (blocks, reader) =>
        (iob :: blocks, reader)

end Read

end Marfs.Io
