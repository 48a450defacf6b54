import Mathlib.Data.Int.Basic
import Marfs.Machine.SizeT

/-!
# I/O queues and I/O blocks

An `ioqueue` hands out ioblocks of one size.  A writer splits its data where an I/O with its CRC ends, a
reader where a part ends; what an ioblock holds beyond the threshold goes on into the next one.  Sizes are
those of the machine: the sums wrap, and the number of parts is an `int`.

Which of the buffers of the queue an ioblock uses does not matter here, nor does waiting for one.
-/

namespace Marfs.Io

open Marfs.Machine

def crcBytes : Nat := 4

/-- `DAL_MODE`, as far as a queue needs it. -/
inductive DalMode where
  | read
  | write
  deriving DecidableEq, Repr

def toInt (n : Nat) : Int :=
  let low := n % 4294967296
  if low < 2147483648 then low else (low : Int) - 4294967296

def ofInt (i : Int) : Nat := (i % (SizeT.modulus : Int)).toNat

structure Ioqueue where
  splitThreshold : Nat
  partsz : Nat
  iosz : Nat
  partcnt : Int
  blocksz : Nat
  deriving DecidableEq, Repr

def createIoqueue (iosz partsz : Nat) (mode : DalMode) : Option Ioqueue :=
  if iosz ≤ crcBytes then none
  else if partsz = 0 then none
  else
    let subsz := if mode = .read then iosz - crcBytes else partsz
    let partcnt := if partsz > iosz - crcBytes then 1 else toInt ((iosz - crcBytes) / partsz)
    let splitThreshold :=
      if mode = .read then SizeT.wrap (ofInt partcnt * partsz) else iosz - crcBytes
    let blocksz := SizeT.wrap (splitThreshold + crcBytes)
    some
      { splitThreshold := splitThreshold
        partsz := partsz
        iosz := iosz
        partcnt := partcnt
        blocksz := SizeT.wrap (blocksz + subsz) }

structure Ioblock where
  data : List UInt8
  errorEnd : Nat
  deriving DecidableEq, Repr

def Ioblock.updateFill (block : Ioblock) (bytes : List UInt8) (badData : Bool) : Ioblock :=
  let data := block.data ++ bytes
  { data := data, errorEnd := if badData then data.length else block.errorEnd }

/-- `reserve_ioblock`: the current ioblock, and a full one to push.  Bytes that are junk are not copied in
fact; they lie before `error_end`. -/
def reserveIoblock (ioq : Ioqueue) : Option Ioblock → Option (Ioblock × Option Ioblock)
  | none => some (⟨[], 0⟩, none)
  | some prev =>
    if prev.data.length < ioq.splitThreshold then some (prev, none)
    else if prev.data.length > ioq.splitThreshold ∧ prev.data.length > ioq.blocksz then none
    else
      let copied := prev.data.drop ioq.splitThreshold
      let junk := prev.data.length > ioq.splitThreshold ∧ prev.errorEnd > ioq.splitThreshold
      some (⟨copied, if junk then copied.length else 0⟩,
        some { prev with data := prev.data.take ioq.splitThreshold })

end Marfs.Io
