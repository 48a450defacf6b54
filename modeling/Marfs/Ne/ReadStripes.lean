import Marfs.Erasure.Systematic

/-!
# Reading stripes

`read_stripes` takes an ioblock from the thread of every block that it needs, and regenerates what is in
error stripe by stripe, the last one first.  The decode tables stay in the handle and are generated again
when the error pattern changes.  The content of an ioblock is given by its parts, one for each stripe; the
arithmetic is that of a field, and the matrix functions of the erasure library are parameters.  Block numbers
are kept in bytes, which is enough for the matrices of the erasure library.
-/

namespace Marfs.Ne.Stripes

open Marfs.Erasure

/-! ## Handles -/

/-- `gf_gen_cauchy1_matrix`, by its rows, and `gf_invert_matrix`. -/
structure Isal (F : Type) (N : Nat) where
  encode : Nat → Fin N → F
  invert : Matrix (Fin N) (Fin N) F → Option (Matrix (Fin N) (Fin N) F)

/-- `ne_erasure`, as far as reading goes; the number of data parts is a parameter. -/
structure Epat where
  E : Nat
  partsz : Nat
  pos : 0 < partsz

structure Ioblock (V : Type) where
  dataSize : Nat
  errorEnd : Nat
  buff : Nat → V

structure Tables (F : Type) (N : Nat) where
  errs : List Nat
  decodeIndex : List Nat
  gTbls : List (Fin N → F)

/-- `ne_handle`: `rdonly` is for the mode `NE_RDONLY`.  There are no tables before the first ones are
generated, and after the generation has failed. -/
structure Handle (F : Type) (N : Nat) where
  rdonly : Bool
  iobOffset : Nat
  iobDatasz : Nat
  subOffset : Nat
  ethreadsRunning : Nat
  eReady : Bool
  prevInErr : List Bool
  prevErrCnt : Nat
  tables : Option (Tables F N)

inductive Errno where
  | ebadf
  | enodata
  | left
  deriving DecidableEq, Repr

/-- Where the regeneration of a stripe fails. -/
inductive StripeFault where
  | none
  | tables
  | unlock
  | buffers
  | lock
  | relinquish
  deriving DecidableEq, Repr

/-- What the calls of `read_stripes` come to: the release of the ioblocks before, the restart of a halted
thread, its next ioblock, the halt of a thread, the allocation of the error lists, and the locks and
allocations for a stripe. -/
structure Answers (V : Type) where
  released : Bool
  restarted : Nat → Bool
  dequeue : Nat → Option (Ioblock V)
  halted : Nat → Bool
  allocated : Bool
  fault : Nat → StripeFault

variable {F V : Type} {N : Nat} [Field F] [AddCommGroup V] [Module F V]

/-! ## Reading -/

/-- The state of the loop over the blocks; `cur_block` is the number of ioblocks. -/
structure Fetch (V : Type) where
  ethreadsRunning : Nat
  nstripeErrors : Nat
  stripecnt : Nat
  iobDatasz : Nat
  iob : List (Ioblock V)

def fetchLoop (N : Nat) (epat : Epat) (answers : Answers V) : Nat → Fetch V → Fetch V × Option Errno
  | 0, st => (st, none)
  | fuel + 1, st =>
    let curBlock := st.iob.length
    if (curBlock < N + st.nstripeErrors ∨ curBlock < N + st.ethreadsRunning) ∧ curBlock < N + epat.E then
      if curBlock ≥ N + st.ethreadsRunning ∧ ¬ answers.restarted curBlock then (st, some .ebadf)
      else
        let st := { st with ethreadsRunning :=
          if curBlock ≥ N + st.ethreadsRunning then st.ethreadsRunning + 1 else st.ethreadsRunning }
        match answers.dequeue curBlock with
        | none => (st, some .ebadf)
        | some iob =>
          let st := { st with nstripeErrors :=
            if iob.errorEnd > 0 then st.nstripeErrors + 1 else st.nstripeErrors }
          if st.nstripeErrors > epat.E then (st, some .enodata)
          else if st.iobDatasz ≠ 0 then
            if iob.dataSize ≠ st.iobDatasz then (st, some .ebadf)
            else fetchLoop N epat answers fuel { st with iob := st.iob ++ [iob] }
          else
            fetchLoop N epat answers fuel { st with
              iob := st.iob ++ [iob], stripecnt := iob.dataSize / epat.partsz, iobDatasz := iob.dataSize }
    else (st, none)

def haltThreads (N : Nat) (answers : Answers V) (nstripeErrors : Nat) (h : Handle F N) : Handle F N :=
  if h.rdonly then
    let prevErrCnt := max h.prevErrCnt nstripeErrors
    let unneeded := List.range' (N + nstripeErrors) (prevErrCnt - nstripeErrors)
    { h with
      ethreadsRunning := h.ethreadsRunning - unneeded.countP answers.halted
      prevErrCnt := nstripeErrors }
  else h

/-! ## Decode tables -/

/-- The rows that are not in error, from row `r` on: the loops of `gf_gen_decode_matrix_simple` over the
`k` rows that are wanted, and over the rows in error between them. -/
def survivors (errs : List Nat) : Nat → Nat → Nat → List Nat
  | 0, _, _ => []
  | _ + 1, 0, _ => []
  | fuel + 1, k + 1, r =>
    if r ∈ errs then survivors errs fuel (k + 1) (r + 1) else r :: survivors errs fuel k (r + 1)

/-- The source of column `i`. -/
def indexOf (decodeIndex : List Nat) (N : Nat) : Fin N → Nat := fun i => decodeIndex.getD i 0

/-- `gf_gen_decode_matrix_simple`, with the tables before it and after it: the rows of `g_tbls` beyond the
errors are those of the encoding. -/
def genTables (isal : Isal F N) (epat : Epat) (stripeErrList : List Nat) : Option (Tables F N) :=
  let decodeIndex := survivors stripeErrList (N + epat.E) N 0
  (isal.invert (chosen isal.encode (indexOf decodeIndex N))).map fun invertMatrix =>
    { errs := stripeErrList
      decodeIndex := decodeIndex
      gTbls := stripeErrList.map (recoverRow isal.encode invertMatrix) ++
        ((List.range epat.E).drop stripeErrList.length).map fun e => isal.encode (N + e) }

/-! ## Regeneration -/

/-- The loop over the blocks of a stripe: the blocks in error, and whether the pattern has changed. -/
structure Scan where
  stripeErrList : List Nat
  prevInErr : List Bool
  eReady : Bool
  deriving DecidableEq, Repr

def scanBlock (scan : Scan) (curBlock : Nat) (inErr : Bool) : Scan where
  stripeErrList := if inErr then scan.stripeErrList ++ [curBlock] else scan.stripeErrList
  prevInErr := scan.prevInErr.set curBlock inErr
  eReady := if scan.prevInErr.getD curBlock false ≠ inErr then false else scan.eReady

def scanBlocks (stripeStart : Nat) : Nat → List (Ioblock V) → Scan → Scan
  | _, [], scan => scan
  | curBlock, iob :: iobs, scan =>
    scanBlocks stripeStart (curBlock + 1) iobs (scanBlock scan curBlock (decide (stripeStart < iob.errorEnd)))

/-- A call of `ec_encode_data`: the blocks that are regenerated, and the tables in the handle. -/
structure Encoded (F : Type) (N : Nat) where
  stripeErrList : List Nat
  tables : Tables F N

def ecEncodeData (gTbls : List (Fin N → F)) (recov : Fin N → V) (rows : Nat) : List V :=
  (gTbls.take rows).map fun row => ∑ i, row i • recov i

def store (stripe stripeStart : Nat) (repaired : List (Nat × V)) (iob : List (Ioblock V)) :
    List (Ioblock V) :=
  iob.mapIdx fun block iob =>
    match repaired.lookup block with
    | none => iob
    | some part => { iob with errorEnd := stripeStart, buff := Function.update iob.buff stripe part }

def sources (decodeIndex : List Nat) (stripe : Nat) (iob : List (Ioblock V)) : Fin N → V :=
  fun i => (iob[indexOf decodeIndex N i]?).elim 0 fun iob => iob.buff stripe

/-- The state of the loop over the stripes, with the calls of `ec_encode_data` so far. -/
structure Regen (F V : Type) (N : Nat) where
  eReady : Bool
  prevInErr : List Bool
  tables : Option (Tables F N)
  iob : List (Ioblock V)
  calls : List (Encoded F N)

/-- The tables for a stripe: those of the handle, or new ones if the pattern has changed. -/
def prepareTables (isal : Isal F N) (epat : Epat) (fault : StripeFault) (stripeErrList : List Nat)
    (st : Regen F V N) : Regen F V N × Option Errno :=
  if st.eReady then (st, none)
  else if fault = .tables then (st, some .left)
  else
    match genTables isal epat stripeErrList with
    | none => ({ st with tables := none }, some .enodata)
    | some tables =>
      if fault = .unlock then ({ st with tables := some tables }, some .left)
      else ({ st with tables := some tables, eReady := true }, none)

def regenerate (epat : Epat) (fault : StripeFault) (stripe : Nat) (stripeErrList : List Nat)
    (st : Regen F V N) : Regen F V N × Option Errno :=
  match st.tables with
  | none => (st, some .left)
  | some tables =>
    if fault = .buffers then (st, some .left)
    else if fault = .lock then
      -- the blocks are marked as usable already
      ({ st with iob := st.iob.mapIdx fun block iob =>
          if block ∈ stripeErrList then { iob with errorEnd := stripe * epat.partsz } else iob },
        some .left)
    else
      let recov := sources tables.decodeIndex stripe st.iob
      let parts := ecEncodeData tables.gTbls recov stripeErrList.length
      let st := { st with
        iob := store stripe (stripe * epat.partsz) (stripeErrList.zip parts) st.iob
        calls := st.calls ++ [⟨stripeErrList, tables⟩] }
      if fault = .relinquish then (st, some .left) else (st, none)

def stripeStep (isal : Isal F N) (epat : Epat) (answers : Answers V) (stripe : Nat) (st : Regen F V N) :
    Regen F V N × Option Errno :=
  let scan := scanBlocks (stripe * epat.partsz) 0 st.iob ⟨[], st.prevInErr, st.eReady⟩
  let st := { st with eReady := scan.eReady, prevInErr := scan.prevInErr }
  match prepareTables isal epat (answers.fault stripe) scan.stripeErrList st with
  | (st, some errno) => (st, some errno)
  | (st, none) => regenerate epat (answers.fault stripe) stripe scan.stripeErrList st

def stripeLoop (isal : Isal F N) (epat : Epat) (answers : Answers V) :
    Nat → Regen F V N → Regen F V N × Option Errno
  | 0, st => (st, none)
  | stripe + 1, st =>
    match stripeStep isal epat answers stripe st with
    | (st, some errno) => (st, some errno)
    | (st, none) => stripeLoop isal epat answers stripe st

/-! ## The call -/

structure Result (F V : Type) (N : Nat) where
  handle : Handle F N
  iob : List (Ioblock V)
  stripecnt : Nat
  calls : List (Encoded F N)
  errno : Option Errno

def Handle.failed (h : Handle F N) (errno : Errno) : Result F V N := ⟨h, [], 0, [], some errno⟩

def readStripes (isal : Isal F N) (epat : Epat) (answers : Answers V) (h : Handle F N) : Result F V N :=
  if h.subOffset % (epat.partsz * N) ≠ 0 ∨ h.subOffset ≠ h.iobDatasz * N then h.failed .ebadf
  else
    let h := { h with iobOffset := h.iobOffset + h.iobDatasz, subOffset := 0, iobDatasz := 0 }
    if ¬ answers.released then h.failed .left
    else
      let (fetch, errno) := fetchLoop N epat answers (N + epat.E) ⟨h.ethreadsRunning, 0, 0, 0, []⟩
      let h := { h with ethreadsRunning := fetch.ethreadsRunning, iobDatasz := fetch.iobDatasz }
      match errno with
      | some errno => h.failed errno
      | none =>
        let h := haltThreads N answers fetch.nstripeErrors h
        if fetch.nstripeErrors = 0 then ⟨h, fetch.iob, fetch.stripecnt, [], none⟩
        else if ¬ answers.allocated then h.failed .left
        else
          let (st, errno) := stripeLoop isal epat answers fetch.stripecnt
            ⟨h.eReady, h.prevInErr, h.tables, fetch.iob, []⟩
          ⟨{ h with eReady := st.eReady, prevInErr := st.prevInErr, tables := st.tables }, st.iob,
            fetch.stripecnt, st.calls, errno⟩

end Marfs.Ne.Stripes
