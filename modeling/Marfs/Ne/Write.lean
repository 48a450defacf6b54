import Mathlib.Algebra.BigOperators.Group.Finset.Basic
import Marfs.Ne.Ioblock

/-!
# Writing an erasure-coded object

`ne_write` deals the bytes of its caller out to the N data blocks, a part at a time, and adds the E
parity parts when a stripe is complete; between calls, the handle remembers how far it came.
`ne_close` completes the last stripe with zeros and hands the rest of every block to its thread.
What ISA-L computes is a parameter: a byte of a parity part depends on the bytes at its place in the
data parts.

A call fails where a thread queue or a lock does; the model leaves that out, and the I/O of the
threads behind the queues.
-/

namespace Marfs.Ne

/-- The erasure pattern of an object, with the I/O size of its handle and the code it uses. -/
structure Erasure where
  N : Nat
  E : Nat
  partsz : Nat
  iosz : Nat
  encode : Nat → List UInt8 → UInt8
  N_pos : 0 < N
  partsz_pos : 0 < partsz
  iosz_gt : crcBytes < iosz

namespace Erasure

variable (e : Erasure)

def stripesz : Nat := e.N * e.partsz

def ioq : Ioqueue := createIoqueue e.iosz e.partsz

def ecEncodeData (parts : List (List UInt8)) (row : Nat) : List UInt8 :=
  (List.range e.partsz).map fun i => e.encode row (parts.map fun part => part.getD i 0)

end Erasure

/-- `ne_handle`, of a writer: the current ioblock of every block, what went to its thread queue, and
how much was written.  `iob_offset` stays zero. -/
structure Handle where
  iob : Nat → Option (List UInt8)
  queued : Nat → List (List UInt8)
  subOffset : Nat
  totsz : Nat

namespace Handle

def init : Handle := { iob := fun _ => none, queued := fun _ => [], subOffset := 0, totsz := 0 }

def setIob (h : Handle) (k : Nat) (block : List UInt8) : Handle :=
  { h with iob := Function.update h.iob k (some block) }

def enqueue (h : Handle) (k : Nat) (block : List UInt8) : Handle :=
  { h with queued := Function.update h.queued k (h.queued k ++ [block]) }

/-- Write behind the bytes of the current ioblock; `none` without one. -/
def fill (h : Handle) (k : Nat) (bytes : List UInt8) : Option Handle :=
  (h.iob k).map fun block => h.setIob k (block ++ bytes)

end Handle

/-- The loop of `ne_write`: the handle, the block that is filled, how much of it, and what is left
of the caller's buffer. -/
structure WriteState where
  handle : Handle
  outblock : Nat
  toWrite : Nat
  buffer : List UInt8

section

variable (e : Erasure) (stale : UInt8)

/-- The loop goes on: the buffer is not written yet, or a stripe lacks parity parts. -/
def WriteState.busy (st : WriteState) : Prop := st.buffer ≠ [] ∨ e.N ≤ st.outblock

instance (st : WriteState) : Decidable (st.busy e) := by unfold WriteState.busy; infer_instance

/-- Fill the current ioblock: with bytes of the caller, or, for the parity part to come, with what
the memory holds. -/
def writePart (st : WriteState) : Option WriteState :=
  if st.outblock < e.N then
    let toWrite := min st.toWrite st.buffer.length
    (st.handle.fill st.outblock (st.buffer.take toWrite)).map fun handle =>
      let handle := { handle with
        subOffset := handle.subOffset + toWrite, totsz := handle.totsz + toWrite }
      let buffer := st.buffer.drop toWrite
      -- check if we have completed a part
      if st.toWrite ≤ st.buffer.length then
        { handle := handle, outblock := st.outblock + 1, toWrite := e.partsz, buffer := buffer }
      else { handle := handle, outblock := st.outblock, toWrite := toWrite, buffer := buffer }
  else
    (st.handle.fill st.outblock (List.replicate e.partsz stale)).map fun handle =>
      { st with handle := handle, outblock := st.outblock + 1 }

def lastPart (block : List UInt8) : List UInt8 := block.drop (block.length - e.partsz)

def generate (h : Handle) : Handle :=
  let parts := (List.range e.N).map fun k => lastPart e ((h.iob k).getD [])
  { h with
    iob := fun k =>
      if e.N ≤ k ∧ k < e.N + e.E then
        (h.iob k).map fun block =>
          block.take (block.length - e.partsz) ++ e.ecEncodeData parts (k - e.N)
      else h.iob k }

/-- A stripe with all its parts gets its parity, and the next one begins. -/
def finishStripe (st : WriteState) : WriteState :=
  if st.outblock = e.N + e.E then { st with handle := generate e st.handle, outblock := 0 } else st

/-- One turn of the loop: the current ioblock has room, and is filled; or it is full, and pushed. -/
def writeTurn (st : WriteState) : Option WriteState :=
  if st.toWrite < e.partsz then (writePart e stale st).map (finishStripe e)
  else
    match reserveIoblock e.ioq (st.handle.iob st.outblock) with
    | none => none
    | some (block, none) =>
      (writePart e stale { st with handle := st.handle.setIob st.outblock block }).map
        (finishStripe e)
    | some (block, some pushBlock) =>
      some { st with
        handle := (st.handle.setIob st.outblock block).enqueue st.outblock pushBlock }

def writeLoop : Nat → WriteState → Option WriteState
  | 0, _ => none
  | fuel + 1, st =>
    if st.busy e then (writeTurn e stale st).bind (writeLoop fuel) else some st

/-- The bytes in the current ioblocks. -/
def Handle.held (h : Handle) : Nat := ∑ k ∈ Finset.range (e.N + e.E), ((h.iob k).getD []).length

/-- A bound on the turns of the loop.  A turn writes bytes of the caller, and may make parity parts
due; or it fills a parity part; or it takes bytes out of an ioblock. -/
def WriteState.turns (st : WriteState) : Nat :=
  st.handle.held e + (e.E * (e.partsz + 1) + 2) * st.buffer.length +
    if e.N ≤ st.outblock then (e.N + e.E - st.outblock) * (e.partsz + 1) else 0

def uintMax : Nat := 2 ^ 32 - 1

def neWrite (h : Handle) (buffer : List UInt8) : Option Handle :=
  if buffer.length > uintMax then none
  else
    let st : WriteState :=
      { handle := h, outblock := h.subOffset % e.stripesz / e.partsz
        toWrite := e.partsz - h.subOffset % e.partsz, buffer := buffer }
    (writeLoop e stale (st.turns e + 1) st).map (·.handle)

def neWrites (h : Handle) (buffers : List (List UInt8)) : Option Handle :=
  buffers.foldlM (neWrite e stale) h

/-- `terminate_thread`: what it pushes of the current ioblock.  Every turn of its loop pushes a full
ioblock, so that the bytes bound the turns. -/
def terminateThread : Nat → List UInt8 → Option (List (List UInt8))
  | 0, _ => none
  | fuel + 1, iob =>
    match reserveIoblock e.ioq (some iob) with
    | none => none
    | some (iob, none) => some (if iob.isEmpty then [] else [iob])
    | some (iob, some pushBlock) => (terminateThread fuel iob).map (pushBlock :: ·)

/-- What `ne_close` leaves: the ioblocks every thread got, the size of the object, and the size its
threads record. -/
structure Closed where
  queued : Nat → List (List UInt8)
  totsz : Nat
  minfoTotsz : Nat

def remaining (h : Handle) (k : Nat) : Option (List (List UInt8)) :=
  match h.iob k with
  | none => some []
  | some iob => terminateThread e (iob.length + 1) iob

def zeroFill (h : Handle) : Option Handle :=
  let partstripe := h.totsz % e.stripesz
  if partstripe = 0 then some h
  else
    (neWrite e stale h (List.replicate (e.stripesz - partstripe) 0)).map fun filled =>
      { filled with totsz := filled.totsz - (e.stripesz - partstripe) }

def neClose (h : Handle) : Option Closed :=
  (zeroFill e stale h).bind fun filled =>
    if (List.range (e.N + e.E)).all fun k => (remaining e filled k).isSome then
      some {
        queued := fun k => filled.queued k ++ (remaining e filled k).getD []
        totsz := filled.totsz
        minfoTotsz := h.totsz }
    else none

end

end Marfs.Ne
