import Marfs.Api.PathOps

/-!
# Handles

A file handle has a meta handle, or a datastream and the meta handle of its current file, or neither once
it was flushed or an error was fatal.  What the calls of the MDAL and of the datastream module come to is
given to an entry point with its other arguments.  Locks and allocations succeed.
-/

namespace Marfs.Api

open Marfs.Config
open Marfs.Datastream (StreamType)

/-- `marfs_fhandle_struct`: the datastream is known by its type.  `dataremaining` is used nowhere. -/
structure MarfsFhandle where
  flags : Nat
  metahandle : Bool
  datastream : Option StreamType
  ns : NsRef
  itype : Interface
  deriving DecidableEq, Repr

/-- `marfs_dhandle_struct`, without its position within the directory. -/
structure MarfsDhandle where
  ns : NsRef
  depth : Nat
  itype : Interface
  deriving DecidableEq, Repr

/-- What an entry point leaves of a file handle, with its outcome. -/
structure Handled where
  outcome : Outcome
  handle : MarfsFhandle
  deriving DecidableEq, Repr

section Meta

variable (config : MarfsConfig) (directread : Nat → Bool) (fh : MarfsFhandle)

/-- Where a call on the meta handle takes place: nowhere if there is none. -/
def MarfsFhandle.metaPositions (fh : MarfsFhandle) : List NsRef :=
  if fh.metahandle then [fh.ns] else []

def MarfsFhandle.dataPositions (fh : MarfsFhandle) : List NsRef :=
  if fh.datastream.isSome then [fh.ns] else []

def fread (op : Op) : Outcome := .issue op fh.itype fh.metaPositions

def marfsFstat : Outcome := fread fh .fstat

def marfsFgetxattr : Outcome := fread fh .fgetxattr

def marfsFlistxattr : Outcome := fread fh .flistxattr

def fwrite (op : Op) : Outcome :=
  if denies fh.itype (config.deref fh.ns) nsWritemeta then .refuse .eperm
  else .issue op fh.itype fh.metaPositions

def marfsFsetxattr : Outcome := fwrite config fh .fsetxattr

def marfsFremovexattr : Outcome := fwrite config fh .fremovexattr

/-- The config lets metadata files of the handle's repo be read. -/
def MarfsFhandle.direct (config : MarfsConfig) (directread : Nat → Bool) (fh : MarfsFhandle) : Bool :=
  directread (config.deref fh.ns).prepo

def marfsFutimens : Outcome :=
  if denies fh.itype (config.deref fh.ns) nsWritemeta then .refuse .eperm
  else if fh.datastream = none ∧ (fh.direct config directread ∨ fh.flags &&& oAsync ≠ 0) then
    .issue .futimens fh.itype fh.metaPositions
  else .issue .datastreamUtimens fh.itype fh.dataPositions

end Meta

/-! ## Data -/

section Data

variable (config : MarfsConfig) (directread : Nat → Bool) (fh : MarfsFhandle)

/-- The datastream is gone; its meta handle is given up as well. -/
def MarfsFhandle.drop (fh : MarfsFhandle) : MarfsFhandle :=
  { fh with metahandle := false, datastream := none }

/-- A call of the datastream that may lose it. -/
def onStream (op : Op) (lost : Bool) : Handled :=
  ⟨.issue op fh.itype [fh.ns], if lost then fh.drop else fh⟩

def onMeta (op : Op) : Handled :=
  if ¬ fh.direct config directread then ⟨.refuse .eperm, fh⟩
  else if fh.flags &&& oAsync ≠ 0 then ⟨.issue op fh.itype fh.metaPositions, fh⟩
  else ⟨⟨.returned, []⟩, fh⟩

def marfsRead (lost : Bool) : Handled :=
  if denies fh.itype (config.deref fh.ns) nsReaddata then ⟨.refuse .eperm, fh⟩
  else if fh.datastream.isSome then
    ⟨.issue .datastreamRead fh.itype [fh.ns], if lost then { fh with datastream := none } else fh⟩
  else onMeta config directread fh .read

def marfsWrite (lost : Bool) : Handled :=
  if denies fh.itype (config.deref fh.ns) nsWritedata then ⟨.refuse .eperm, fh⟩
  else if fh.datastream.isSome then onStream fh .datastreamWrite lost
  else ⟨.refuse .eperm, fh⟩

def marfsSeek (lost : Bool) : Handled :=
  if fh.datastream.isSome then onStream fh .datastreamSeek lost
  else onMeta config directread fh .lseek

def marfsReadAtOffset (seeklost sought readlost : Bool) : Handled :=
  if denies fh.itype (config.deref fh.ns) nsReaddata then ⟨.refuse .eperm, fh⟩
  else
    let seek := marfsSeek config directread fh seeklost
    if ¬ sought then seek
    else
      let fh := seek.handle
      let read :=
        if fh.datastream.isSome then onStream fh .datastreamRead readlost
        else ⟨.issue .read fh.itype fh.metaPositions, fh⟩
      ⟨⟨read.outcome.reply, seek.outcome.calls ++ read.outcome.calls⟩, read.handle⟩

def marfsChunkbounds : Outcome :=
  if fh.datastream.isSome then .issue .datastreamChunkbounds fh.itype [fh.ns] else .refuse .einval

def marfsFtruncate : Handled :=
  if denies fh.itype (config.deref fh.ns) nsWritedata then ⟨.refuse .eperm, fh⟩
  else if fh.datastream.isSome then onStream fh .datastreamTruncate false
  else onMeta config directread fh .ftruncate

def marfsExtend (lost : Bool) : Handled :=
  match fh.datastream with
  | some type => onStream fh (.datastreamExtend type) lost
  | none => ⟨.refuse .einval, fh⟩

end Data

/-! ## Closing -/

section Close

variable (fh : MarfsFhandle)

def closeCalls (streamop : Op) : List Call :=
  if fh.datastream.isSome then [⟨streamop, fh.itype, [fh.ns]⟩]
  else if fh.metahandle then [⟨.close, fh.itype, [fh.ns]⟩]
  else []

def marfsClose : Outcome :=
  if ¬ fh.metahandle ∧ fh.datastream = none then .refuse .einval
  else ⟨.returned, closeCalls fh .datastreamClose⟩

def marfsRelease : Outcome := ⟨.returned, closeCalls fh .datastreamRelease⟩

def marfsFlush : Handled := ⟨⟨.returned, closeCalls fh .datastreamClose⟩, fh.drop⟩

end Close

/-! ## Opening -/

section Open

variable (mdal : Mdal) (config : MarfsConfig) (fuel : Nat) (ctxt : MarfsCtxt)

/-- The same `marfs_ns*`: ghost copies are allocated one by one. -/
def NsRef.same : NsRef → NsRef → Bool
  | .table ns, .table ns' => ns = ns'
  | _, _ => false

def marfsSetrecoverypath (fh : MarfsFhandle) (recovpath : List Char) : Option Outcome :=
  if fh.datastream = none then some (.refuse .einval)
  else
    match pathshift mdal config fuel ctxt recovpath 1 with
    | none => none
    | some .failed => some (.refuse .left)
    | some (.found pos _ _) =>
      if ¬ NsRef.same pos.ns fh.ns then some (.refuse .einval)
      else some (.issue .datastreamSetrecoverypath fh.itype [fh.ns])

/-- What is left of the argument `stream` of `marfs_creat` or `marfs_open`: an allocated handle is freed
again where the call fails. -/
structure Opened where
  outcome : Outcome
  handle : Option MarfsFhandle
  deriving DecidableEq, Repr

/-- A failure that leaves the argument as it was. -/
def Opened.refuse (errno : Errno) (stream : Option MarfsFhandle) : Opened := ⟨.refuse errno, stream⟩

/-- What comes of `datastream_create` or `datastream_open`: it succeeds; fails, with the former stream
lost or not; or it fails and hands out a meta handle. -/
inductive Streamed where
  | opened
  | failed (lost : Bool)
  | phandle (lost : Bool)
  deriving DecidableEq, Repr

def prepare (stream : Option MarfsFhandle) (closed : Bool) : Except Opened (Option MarfsFhandle × List Call) :=
  match stream with
  | none => .ok (none, [])
  | some fh =>
    if fh.datastream.isSome then .ok (some fh, [])
    else if ¬ fh.metahandle then .error (.refuse .einval (some fh))
    else
      let calls := [⟨.close, fh.itype, [fh.ns]⟩]
      let fh := { fh with metahandle := false }
      if closed then .ok (some fh, calls) else .error ⟨⟨.refused .ebadfd, calls⟩, some fh⟩

/-- A failure of the datastream module: a stream that was lost takes the meta handle with it, and a
handle without a meta handle is defunct. -/
def streamFailed (calls : List Call) (stream : Option MarfsFhandle) (lost : Bool) : Opened :=
  match stream with
  | none => ⟨⟨.refused .left, calls⟩, none⟩
  | some fh =>
    let fh := if lost then fh.drop else fh
    ⟨⟨.refused (if fh.metahandle then .left else .ebadfd), calls⟩, some fh⟩

def overQuota (quota : Nat) (usage : Option Nat) : Bool :=
  quota ≠ 0 &&
    match usage with
    | none => true
    | some usage => usage ≥ quota

def marfsCreat (stream : Option MarfsFhandle) (path : List Char) (inodeusage datausage : Option Nat)
    (closed : Bool) (streamed : Streamed) : Option Opened :=
  match pathshift mdal config fuel ctxt path 1 with
  | none => none
  | some .failed => some (.refuse .left stream)
  | some (.found pos _ depth) =>
    let ns := config.deref pos.ns
    if (ctxt.itype ≠ .interactive ∧ (ns.bperms &&& nsRwmeta ≠ nsRwmeta ∨ ns.bperms &&& nsWritedata = 0)) ∨
        (ctxt.itype ≠ .batch ∧ (ns.iperms &&& nsRwmeta ≠ nsRwmeta ∨ ns.iperms &&& nsWritedata = 0)) then
      some (.refuse .eperm stream)
    else if depth = 0 then some (.refuse .eisdir stream)
    else if overQuota ns.fquota inodeusage ∨ overQuota ns.dquota datausage then
      some (.refuse .edquot stream)
    else
      match prepare stream closed with
      | .error opened => some opened
      | .ok (stream, calls) =>
        if stream.any fun fh => fh.datastream.any (· ≠ .create) then
          some (streamFailed calls stream false)
        else
          let calls := calls ++ [⟨.datastreamCreate, ctxt.itype, [pos.ns]⟩]
          match streamed with
          | .opened => some ⟨⟨.returned, calls⟩, some
              { flags := oWronly ||| oCreat, metahandle := true, datastream := some .create
                ns := pos.ns, itype := ctxt.itype }⟩
          | .failed lost => some (streamFailed calls stream lost)
          | .phandle lost => some (streamFailed calls stream lost)

def clearAsync (flags : Nat) : Nat := flags ^^^ (flags &&& oAsync)

def openAsync (pos : MarfsPosition) (flags : Nat) (stream : Option MarfsFhandle) (calls : List Call)
    (released opened : Bool) : Opened :=
  let release := stream.elim [] fun fh =>
    if fh.datastream.isSome then [⟨.datastreamRelease, fh.itype, [fh.ns]⟩] else []
  if release ≠ [] ∧ ¬ released then
    ⟨⟨.refused .ebadfd, calls ++ release⟩, stream.map MarfsFhandle.drop⟩
  else
    let calls := calls ++ release ++ [⟨.open (clearAsync flags), ctxt.itype, [pos.ns]⟩]
    let fh : MarfsFhandle :=
      { flags := flags, metahandle := opened, datastream := none, ns := pos.ns, itype := ctxt.itype }
    if opened then ⟨⟨.returned, calls⟩, some fh⟩
    else
      ⟨⟨.refused (if stream.isSome then .ebadfd else .left), calls⟩, stream.map fun _ => fh⟩

/-- The calls of `marfs_open` without `O_ASYNC`: a datastream, or a meta-only reference to a file that
is opened for read and has no FTAG. -/
def openStream (pos : MarfsPosition) (flags : Nat) (stream : Option MarfsFhandle) (calls : List Call)
    (streamed : Streamed) (released : Bool) : Opened :=
  let type : StreamType := if flags &&& oAccmode = oWronly then .edit else .read
  if stream.any fun fh => fh.datastream.any (· ≠ type) then streamFailed calls stream false
  else
    let calls := calls ++ [⟨.datastreamOpen, ctxt.itype, [pos.ns]⟩]
    match streamed with
    | .opened => ⟨⟨.returned, calls⟩, some
        { flags := flags, metahandle := true, datastream := some type, ns := pos.ns
          itype := ctxt.itype }⟩
    | .failed lost => streamFailed calls stream lost
    | .phandle lost =>
      if flags &&& oAccmode ≠ oRdonly then streamFailed calls stream lost
      else
        let release := stream.elim [] fun fh =>
          if fh.datastream.isSome ∧ ¬ lost then [⟨.datastreamRelease, fh.itype, [fh.ns]⟩] else []
        if release ≠ [] ∧ ¬ released then
          ⟨⟨.refused .ebadfd, calls ++ release ++ [⟨.close, ctxt.itype, [pos.ns]⟩]⟩,
            stream.map MarfsFhandle.drop⟩
        else
          ⟨⟨.returned, calls ++ release⟩, some
            { flags := flags ||| oAsync, metahandle := true, datastream := none, ns := pos.ns
              itype := ctxt.itype }⟩

def marfsOpen (stream : Option MarfsFhandle) (path : List Char) (flags : Nat)
    (closed released opened : Bool) (streamed : Streamed) : Option Opened :=
  if flags &&& oAsync = 0 ∧ (flags &&& oAccmode = oRdwr ∨ flags ≠ flags &&& oAccmode) then
    some (.refuse .einval stream)
  else
    match pathshift mdal config fuel ctxt path 1 with
    | none => none
    | some .failed => some (.refuse .left stream)
    | some (.found pos _ depth) =>
      if denies ctxt.itype (config.deref pos.ns) nsReadmeta then some (.refuse .eperm stream)
      else if depth = 0 then some (.refuse .eisdir stream)
      else
        match prepare stream closed with
        | .error opened => some opened
        | .ok (stream, calls) =>
          if flags &&& oAsync ≠ 0 then some (openAsync ctxt pos flags stream calls released opened)
          else some (openStream ctxt pos flags stream calls streamed released)

end Open

/-! ## Directories -/

section Directories

variable (mdal : Mdal) (config : MarfsConfig) (fuel : Nat) (ctxt : MarfsCtxt) (dh : MarfsDhandle)

def marfsOpendir (path : List Char) (opened : Bool) : Option (Outcome × Option MarfsDhandle) :=
  match pathshift mdal config fuel ctxt path 0 with
  | none => none
  | some .failed => some (.refuse .left, none)
  | some (.found pos _ depth) =>
    if denies ctxt.itype (config.deref pos.ns) nsReadmeta then some (.refuse .eperm, none)
    else some (.issue (if depth = 0 then .opendirnamespace else .opendir) ctxt.itype [pos.ns],
      if opened then some { ns := pos.ns, depth := depth, itype := ctxt.itype } else none)

def marfsClosedir : Outcome := .issue .closedir dh.itype [dh.ns]

def marfsChdir (moved : Option Ctxt) : Outcome × MarfsCtxt :=
  (.issue .chdir ctxt.itype [dh.ns],
    match moved with
    | none => ctxt
    | some moved => { ctxt with pos := { ns := dh.ns, depth := dh.depth, ctxt := some moved } })

def dwrite (op : Op) : Outcome :=
  if denies dh.itype (config.deref dh.ns) nsWritemeta then .refuse .eperm
  else .issue op dh.itype [dh.ns]

def marfsDsetxattr : Outcome := dwrite config dh .dsetxattr

def marfsDremovexattr : Outcome := dwrite config dh .dremovexattr

def marfsDgetxattr : Outcome := .issue .dgetxattr dh.itype [dh.ns]

def marfsDlistxattr : Outcome := .issue .dlistxattr dh.itype [dh.ns]

end Directories

end Marfs.Api
