import Marfs.Datastream.Filebounds
import Marfs.Machine.Fallible
import Marfs.Recovery.Finfo
import Mathlib.Logic.Relation

/-!
# Writing datastreams

A `CREATE` stream packs the files of a client into data objects, a `REPACK` stream rewrites files
that exist already.  Files follow each other in an object, each with its recovery info behind it; a
file that does not fit goes on in the next object.

`Sys` is a stream with the data objects and the FTAGs it stores.  Every call to the erasure library
or the MDAL takes its outcome from a list: it succeeds, or falls short of what was asked of it, and
where the list ends, calls succeed.  Allocations succeed.
-/

namespace Marfs.Datastream

open Machine Recovery Tagging

/-! ## The state -/

/-- The parts of `marfs_ds` and `marfs_ms` that end up in FTAGs. -/
structure Scheme where
  objfiles : Nat
  objsize : Nat
  refbreadth : Int
  refdepth : Int
  refdigits : Int
  protection : NeErasure
  deriving DecidableEq, Repr

inductive StreamType where
  | create
  | edit
  | read
  | repack
  deriving DecidableEq, Repr

/-- `STREAMFILE`: whether its meta handle is open, and its FTAG.  Times are left out. -/
structure Streamfile where
  metahandle : Bool
  ftag : Ftag
  deriving DecidableEq, Repr

/-- `datastream_struct`.  A data handle is the number of the object it was opened for. -/
structure Stream where
  type : StreamType
  scheme : Scheme
  ctag : List Char
  streamid : List Char
  recoveryheaderlen : Nat
  fileno : Nat
  objno : Nat
  offset : Nat
  excessoffset : Nat
  datahandle : Option Nat
  files : Nat → Streamfile
  curfile : Nat
  finfo : RecoveryFinfo

def Stream.setFinfo (finfo : RecoveryFinfo) (stream : Stream) : Stream :=
  { stream with finfo := finfo }

/-- What a stream writes to a data object, and for which of its files. -/
inductive Segment where
  | header (bytes : List Char)
  | data (fileno : Nat) (bytes : List Char)
  | finfo (fileno : Nat) (bytes : List Char)
  deriving DecidableEq, Repr

def Segment.bytes : Segment → List Char
  | .header bytes => bytes
  | .data _ bytes => bytes
  | .finfo _ bytes => bytes

def content (segments : List Segment) : List Char := segments.flatMap Segment.bytes

/-- A stream, the data objects, whether `ne_close` succeeded on them, and the FTAGs that are
attached to the references of its files; what the underlying calls are going to do; and whether a
subtraction that computes the room left in an object wrapped around. -/
structure Sys where
  stream : Stream
  live : Bool
  objs : Nat → List Segment
  closed : Nat → Bool
  ftags : Nat → Option Ftag
  outcomes : List (Option Nat)
  wrapped : Bool

def Stream.cur (stream : Stream) : Streamfile := stream.files stream.curfile

def Stream.setFile (stream : Stream) (i : Nat) (file : Streamfile) : Stream :=
  { stream with files := fun j => if j = i then file else stream.files j }

def Stream.header (stream : Stream) : List Char :=
  recoveryHeadertostr
    { majorversion := 0, minorversion := 1, ctag := stream.ctag, streamid := stream.streamid }

/-- The attributes of a meta file that go into its recovery info. -/
structure FileStat where
  inode : Nat
  mode : Nat
  owner : Nat
  group : Nat
  size : Nat
  mtimeSec : Nat
  mtimeNsec : Nat
  deriving DecidableEq, Repr

def FileStat.finfo (stat : FileStat) (size : Nat) (path : List Char) : RecoveryFinfo :=
  { inode := stat.inode, mode := stat.mode, owner := stat.owner, group := stat.group, size := size
    mtimeSec := stat.mtimeSec, mtimeNsec := stat.mtimeNsec, eof := false, path := path }

def Stream.newFtag (stream : Stream) (recoverybytes : Nat) : Ftag :=
  { majorversion := 0, minorversion := 1, ctag := stream.ctag, streamid := stream.streamid
    objfiles := stream.scheme.objfiles, objsize := stream.scheme.objsize
    refbreadth := stream.scheme.refbreadth, refdepth := stream.scheme.refdepth
    refdigits := stream.scheme.refdigits, fileno := stream.fileno, objno := stream.objno
    offset := stream.offset, endofstream := false, protection := stream.scheme.protection
    bytes := 0, availbytes := 0, recoverybytes := recoverybytes
    state := { data := .init, writeable := false, readable := false } }

def Stream.enter (stream : Stream) (file : Streamfile) (finfo : RecoveryFinfo) : Stream :=
  { stream.setFile stream.curfile file with
    finfo := finfo, fileno := file.ftag.fileno, objno := file.ftag.objno, offset := file.ftag.offset }

structure Position where
  totaloffset : Nat
  dataremaining : Nat
  excessremaining : Nat
  objno : Nat
  offset : Nat
  excessoffset : Nat
  dataperobj : Nat
  deriving DecidableEq, Repr

/-- The origin of an offset. -/
inductive Whence where
  | set
  | cur
  | end
  deriving DecidableEq, Repr

def offMax : Nat := 2 ^ 63

/-- The bound of a file that offsets refer to: its size in the metadata, the size of its data, or, for
a stream that creates it, what has been written. -/
def Stream.filesize (stream : Stream) : Nat :=
  match stream.type with
  | .read => stream.finfo.size
  | .edit => stream.cur.ftag.availbytes
  | _ => stream.cur.ftag.bytes

def Stream.position (stream : Stream) (dataperobj minoffset offset : Nat) : Position :=
  let curtag := stream.cur.ftag
  let filesize := max stream.filesize offset
  let excessremain := if filesize > curtag.availbytes then filesize - curtag.availbytes else 0
  let excessoff := if offset > curtag.availbytes then offset - curtag.availbytes else 0
  let inner := if offset > curtag.availbytes then curtag.availbytes else offset
  let crosses := decide (inner + minoffset ≥ dataperobj)
  { totaloffset := offset
    dataremaining := curtag.availbytes - inner
    excessremaining := excessremain - excessoff
    objno := if crosses then curtag.objno + (inner + minoffset) / dataperobj else curtag.objno
    offset := stream.recoveryheaderlen +
      (if crosses then (inner + minoffset) % dataperobj else inner + minoffset)
    excessoffset := excessoff
    dataperobj := dataperobj }

namespace Sys

def modifyStream (f : Stream → Stream) : Op Sys Unit :=
  Op.modify fun s => { s with stream := f s.stream }

def modifyFile (i : Nat) (f : Streamfile → Streamfile) : Op Sys Unit :=
  modifyStream fun stream => stream.setFile i (f (stream.files i))

def modifyFtag (i : Nat) (f : Ftag → Ftag) : Op Sys Unit :=
  modifyFile i fun file => { file with ftag := f file.ftag }

/-- What the next underlying call does. -/
def outcome : Op Sys (Option Nat) := fun s =>
  match s.outcomes with
  | [] => (some none, s)
  | o :: outcomes => (some o, { s with outcomes := outcomes })

def call : Op Sys Unit := do
  let o ← outcome
  Op.check o.isNone

def succeeds : Op Sys Bool := do
  let o ← outcome
  pure o.isNone

/-- A subtraction that computes the room left in an object. -/
def space (a b : Nat) : Op Sys Nat := do
  Op.modify fun s => { s with wrapped := s.wrapped || decide (a < b) }
  pure (SizeT.sub a b)

def pieces (segment : List Char → Segment) (bytes : List Char) : List Segment :=
  if bytes = [] then [] else [segment bytes]

/-- Add to the content of an object. -/
def append (h : Nat) (segments : List Segment) (s : Sys) : Sys :=
  { s with objs := fun i => if i = h then s.objs i ++ segments else s.objs i }

def neWrite (segment : List Char → Segment) (bytes : List Char) : Op Sys Nat := do
  let o ← outcome
  let s ← Op.get
  let written := bytes.take (o.getD bytes.length)
  match s.stream.datahandle with
  | none => Op.fail
  | some h => do
    Op.modify (append h (pieces segment written))
    pure written.length

def store (ftag : Ftag) (s : Sys) : Sys :=
  { s with ftags := fun n => if n = ftag.fileno then some ftag else s.ftags n }

def neAbort : Op Sys Unit := modifyStream fun stream => { stream with datahandle := none }

def freestream : Op Sys Unit := do
  neAbort
  Op.modify fun s => { s with live := false }

/-! ## FTAGs -/

/-- `putftag`.  The FTAG of a file that is being repacked goes to another attribute, which does not
count as its FTAG. -/
def putftag (i : Nat) : Op Sys Unit := do
  call
  let s ← Op.get
  if s.stream.type ≠ .repack then Op.modify (store (s.stream.files i).ftag)

def unlinkref (fileno : Nat) : Op Sys Unit := do
  let ok ← succeeds
  if ok then
    Op.modify fun s => { s with ftags := fun n => if n = fileno then none else s.ftags n }

/-! ## Positions -/

def usedData : Op Sys Nat := do
  let s ← Op.get
  if s.stream.offset ≠ 0 then space s.stream.offset s.stream.recoveryheaderlen else pure 0

def moved (dataperobj minoffset : Nat) : Op Sys Nat := do
  let s ← Op.get
  let minobj := s.stream.cur.ftag.objno
  if s.stream.objno > minobj then do
    let first ← space dataperobj minoffset
    let used ← usedData
    pure (first + (s.stream.objno - (minobj + 1)) * dataperobj + used)
  else do
    let used ← usedData
    pure (if s.stream.offset ≠ 0 then SizeT.sub used minoffset else 0)

def fromStart (dataperobj minoffset offset : Nat) : Whence → Op Sys Nat
  | .set => pure offset
  | .end => do
    let s ← Op.get
    pure (SizeT.wrap (offset + s.stream.filesize))
  | .cur => do
    let s ← Op.get
    let distance ← moved dataperobj minoffset
    pure (SizeT.wrap (offset + distance + s.stream.excessoffset))

def gettargets (offset : Nat) (whence : Whence) : Op Sys Position := do
  let s ← Op.get
  let curtag := s.stream.cur.ftag
  let dataperobj ← space curtag.objsize (curtag.recoverybytes + s.stream.recoveryheaderlen)
  let minoffset ← space curtag.offset s.stream.recoveryheaderlen
  let offset ← fromStart dataperobj minoffset offset whence
  Op.check (offset < offMax)
  -- only a stream that creates a file goes beyond its end
  Op.check (offset ≤ s.stream.filesize || s.stream.type = .create || s.stream.type = .repack)
  pure (s.stream.position dataperobj minoffset offset)

/-! ## Data objects -/

/-- Open the file's data: an `FTAG_INIT` file becomes `FTAG_SIZED`. -/
def sized (ftag : Ftag) : Ftag :=
  { ftag with state := { ftag.state with
      data := if ftag.state.data.toNat < DataState.sized.toNat then .sized else ftag.state.data } }

/-- The end of `open_current_obj`, of a stream that writes.  Opening an object for writing empties
it; then it gets its header. -/
def openHandle : Op Sys Unit := do
  call
  let s ← Op.get
  Op.modify fun s => { s with
    stream := { s.stream with datahandle := some s.stream.objno }
    objs := fun i => if i = s.stream.objno then [] else s.objs i
    closed := fun i => if i = s.stream.objno then false else s.closed i }
  (Op.check (s.stream.offset = s.stream.recoveryheaderlen)).onFail neAbort
  (Op.check (s.stream.header.length = s.stream.recoveryheaderlen)).onFail neAbort
  let written ← (neWrite .header s.stream.header).onFail neAbort
  (Op.check (written = s.stream.recoveryheaderlen)).onFail neAbort

def openCurrentObj : Op Sys Unit := do
  call
  let s ← Op.get
  modifyFtag s.stream.curfile sized
  putftag s.stream.curfile
  openHandle

def finfoBlock (finfo : RecoveryFinfo) (recoverybytes : Nat) : List Char :=
  let finfostr := recoveryFinfotostr finfo
  finfostr ++ List.replicate (recoverybytes - finfostr.length) '\x00'

def putfinfo : Op Sys Unit := do
  let s ← Op.get
  let ftag := s.stream.cur.ftag
  let finfo := { s.stream.finfo with size := ftag.bytes }
  -- a repack stream keeps the size it expects
  modifyStream fun stream =>
    { stream with finfo := if stream.type = .repack then stream.finfo else finfo }
  Op.check (finfoLength finfo ≤ ftag.recoverybytes)
  let written ← neWrite (.finfo ftag.fileno) (finfoBlock finfo ftag.recoverybytes)
  Op.check (written = ftag.recoverybytes)
  modifyStream fun stream => { stream with offset := stream.offset + ftag.recoverybytes }

def closeCurrentObj : Op Sys Unit := do
  let s ← Op.get
  match s.stream.datahandle with
  | none => pure ()
  | some h => do
    let o ← outcome
    neAbort
    match o with
    | none => Op.modify fun s => { s with closed := fun i => i = h || s.closed i }
    | some 0 => Op.fail
    | some _ => do
      Op.modify fun s => { s with closed := fun i => i = h || s.closed i }
      call

/-! ## Files -/

def closeMeta (i : Nat) : Op Sys Unit :=
  modifyFile i fun file => { file with metahandle := false }

def completed (ftag : Ftag) : Ftag :=
  { ftag with
    state := { ftag.state with data := .comp, readable := true }
    availbytes := ftag.bytes }

/-- The middle of `completefile` for a repack stream: the original FTAG is read, and kept on the
marker file and on the file itself; the new one becomes the FTAG of the file; and the marker takes
the place of the original reference. -/
def swapRepacked (i : Nat) : Op Sys Unit := do
  call
  call
  call
  call
  call
  modifyStream fun stream => { stream with type := .create }
  (putftag i).onFail (modifyStream fun stream => { stream with type := .repack })
  modifyStream fun stream => { stream with type := .repack }
  call
  call

def completeMeta (i : Nat) : Op Sys Unit := do
  let s ← Op.get
  Op.check !(s.stream.files i).ftag.state.writeable
  modifyFtag i completed
  putftag i
  if s.stream.type = .repack then swapRepacked i else call
  call
  call

def completefile (i : Nat) : Op Sys Unit := do
  let s ← Op.get
  Op.check (s.stream.files i).metahandle
  (completeMeta i).onFail (closeMeta i)
  closeMeta i

/-- Complete the first files of a stream, last first, whether or not others fail; tell if all went
well. -/
def completeFiles : Nat → Op Sys Bool
  | 0 => pure true
  | n + 1 => do
    let done ← Op.attempt (completefile n)
    let rest ← completeFiles n
    pure (done.isSome && rest)

def completePrevious : Op Sys Unit := do
  let s ← Op.get
  let all ← completeFiles s.stream.curfile
  modifyStream fun stream =>
    { stream.setFile 0 (stream.files stream.curfile) with curfile := 0 }
  (Op.check all).onFail freestream

def retireObject : Op Sys Unit := do
  closeCurrentObj.onFail freestream
  completePrevious

def leaveObject : Op Sys Unit := do
  retireObject
  modifyStream fun stream =>
    { stream with objno := stream.objno + 1, offset := stream.recoveryheaderlen }

def finalized (ftag : Ftag) : Ftag := { ftag with state := { ftag.state with data := .fin } }

/-- The recovery info of a file goes behind its data.  An extended file has no data in the object of
the stream, and can't pack: the stream proceeds to the next object. -/
def putLast : Op Sys Unit := do
  let s ← Op.get
  if s.stream.datahandle.isSome then do
    modifyStream fun stream => { stream with finfo := { stream.finfo with eof := true } }
    putfinfo.onFail
      (modifyStream fun stream => { stream with finfo := { stream.finfo with eof := false } })
  else
    modifyStream fun stream =>
      { stream with objno := stream.objno + 1, offset := stream.recoveryheaderlen }

/-- The end of `finfile`. -/
def finishData : Op Sys Unit := do
  putLast
  let s ← Op.get
  modifyFtag s.stream.curfile finalized

def openEmpty : Op Sys Unit := do
  let s ← Op.get
  if s.stream.cur.ftag.bytes = 0 ∧ s.stream.datahandle = none then openCurrentObj

def finfile : Op Sys Unit := do
  let s ← Op.get
  let ftag := s.stream.cur.ftag
  Op.check (s.stream.type ≠ .repack || ftag.bytes = s.stream.finfo.size)
  if ftag.unfinalized then do
    openEmpty
    finishData

/-! ## New files -/

def objectFull (ftag : Ftag) : Op Sys Bool := do
  let s ← Op.get
  if ftag.objsize = 0 then pure false
  else do
    let room ← space ftag.objsize s.stream.offset
    pure (decide (room < ftag.recoverybytes))

/-- Place a new file: where the object has no room for its recovery info, or for another file, it
shifts to the next one.  Fails if no object has room for it. -/
def placeFile (ftag : Ftag) : Op Sys Ftag := do
  let s ← Op.get
  let headerlen := s.stream.recoveryheaderlen
  Op.check (ftag.objsize = 0 || headerlen + ftag.recoverybytes < ftag.objsize)
  let full ← objectFull ftag
  if full || (ftag.objfiles ≠ 0 && decide (s.stream.curfile ≥ ftag.objfiles)) then
    pure { ftag with objno := ftag.objno + 1, offset := headerlen }
  else pure ftag

def createNewFile (path : List Char) (stat : FileStat) : Op Sys Unit := do
  let s ← Op.get
  -- the reference path, and the reference
  call
  call
  let finfo := stat.finfo 0 path
  (do
    call
    let ftag ← placeFile (s.stream.newFtag (finfoLength finfo))
    call
    Op.modify (store ftag)
    -- the link into the user namespace
    call
    modifyStream fun stream => stream.enter { metahandle := true, ftag := ftag } finfo).onFail
      (unlinkref s.stream.fileno)

def openRepackFile (path : List Char) (stat : FileStat) : Op Sys Unit := do
  let s ← Op.get
  -- the reference is looked up and opened, its FTAG read; the marker is created
  call
  call
  call
  call
  call
  let finfo := stat.finfo stat.size path
  modifyStream fun stream => { stream with finfo := finfo }
  let ftag ← placeFile (s.stream.newFtag (finfoLength finfo))
  -- the marker is tagged and closed, the file linked to its new reference
  call
  call
  call
  call
  modifyStream fun stream => stream.enter { metahandle := true, ftag := ftag } finfo

/-- Go on to the next file, which `next` opens.  If it does not share the object of the one before,
that object is closed. -/
def enterNext (curobj : Nat) (next : Op Sys Unit) : Op Sys Unit := do
  modifyStream fun stream =>
    { stream with curfile := stream.curfile + 1, fileno := stream.fileno + 1 }
  next.onFail (modifyStream fun stream =>
    { stream with curfile := stream.curfile - 1, fileno := stream.fileno - 1 })
  let s ← Op.get
  if s.stream.cur.ftag.objno ≠ curobj then retireObject

/-- What `datastream_create` and `datastream_repack` do with a stream they are passed: finish the
current file, and go on to the next. -/
def nextFile (next : Op Sys Unit) : Op Sys Unit := do
  let s ← Op.get
  finfile.onFail freestream
  (putftag s.stream.curfile).onFail freestream
  enterNext s.stream.objno next

def datastreamCreate (path : List Char) (stat : FileStat) : Op Sys Unit := do
  let s ← Op.get
  Op.check (s.stream.type = .create)
  nextFile (createNewFile path stat)

def datastreamRepack (path : List Char) (stat : FileStat) : Op Sys Unit := do
  let s ← Op.get
  Op.check (s.stream.type = .repack)
  nextFile (openRepackFile path stat)

/-! ## Data -/

/-- The recovery info at the tail of an object that the file goes beyond. -/
def putTail : Op Sys Unit := do
  let s ← Op.get
  if s.stream.datahandle.isSome then putfinfo.onFail freestream

/-- `datastream_write` reaches the end of an object. -/
def nextObject : Op Sys Unit := do
  putTail
  leaveObject

def shortWrite (writtenbytes : Nat) : Op Sys Nat :=
  if writtenbytes = 0 then Op.fail else pure writtenbytes

/-- Open the data object, if necessary; tell if there is one. -/
def openNeeded : Op Sys (Option Unit) := do
  let s ← Op.get
  if s.stream.datahandle.isNone then Op.attempt openCurrentObj else pure (some ())

def findRoom (dataperobj : Nat) : Op Sys Nat := do
  let s ← Op.get
  let used ← space s.stream.offset s.stream.recoveryheaderlen
  let towrite ← space dataperobj used
  if towrite = 0 then do
    nextObject
    pure dataperobj
  else pure towrite

def writeLoop (dataperobj : Nat) : Nat → List Char → Nat → Op Sys Nat
  | 0, _, writtenbytes => pure writtenbytes
  | _, [], writtenbytes => pure writtenbytes
  | fuel + 1, buf, writtenbytes => do
    let towrite ← findRoom dataperobj
    let opened ← openNeeded
    if opened.isNone then shortWrite writtenbytes
    else do
      let s ← Op.get
      let written ← neWrite (.data s.stream.cur.ftag.fileno) (buf.take towrite)
      if written = 0 then shortWrite writtenbytes
      else do
        modifyStream fun stream => { stream with offset := stream.offset + written }
        modifyFtag s.stream.curfile fun ftag => { ftag with bytes := ftag.bytes + written }
        writeLoop dataperobj fuel (buf.drop written) (writtenbytes + written)

def datastreamWrite (buf : List Char) : Op Sys Nat := do
  let s ← Op.get
  Op.check (s.stream.type = .create || s.stream.type = .repack)
  Op.check (buf.length < offMax)
  Op.check s.stream.cur.ftag.unfinalized
  Op.check !s.stream.cur.ftag.state.writeable
  let streampos ← gettargets 0 .cur
  writeLoop streampos.dataperobj buf.length buf 0

/-- The loop of `datastream_seek` that writes zeros up to the target.  It looks at the `STREAMFILE`
that was the current one when it began.  Without a result it is still running. -/
def seekLoop (curfile totaloffset : Nat) : Nat → Op Sys (Option Nat)
  | 0 => pure none
  | fuel + 1 => do
    let s ← Op.get
    let bytes := (s.stream.files curfile).ftag.bytes
    if bytes < totaloffset then do
      let writesize := min (1024 * 1024) (totaloffset - bytes)
      let written ← Op.attempt (datastreamWrite (List.replicate writesize '\x00'))
      if written = some writesize then seekLoop curfile totaloffset fuel
      else do
        let s ← Op.get
        pure (some (s.stream.files curfile).ftag.bytes)
    else pure (some bytes)

/-- `datastream_seek`, of a `CREATE` or `REPACK` stream; `fuel` is how many times its loop may
run. -/
def datastreamSeek (fuel offset : Nat) (whence : Whence) : Op Sys (Option Nat) := do
  let s ← Op.get
  Op.check (s.stream.type = .create || s.stream.type = .repack)
  let streampos ← gettargets offset whence
  Op.check !(streampos.totaloffset < s.stream.cur.ftag.bytes)
  if streampos.totaloffset = s.stream.cur.ftag.bytes then pure (some s.stream.cur.ftag.bytes)
  else seekLoop s.stream.curfile streampos.totaloffset fuel

/-- The tag with another length of recovery info. -/
def withRecoverybytes (recoverybytes : Nat) (ftag : Ftag) : Ftag :=
  { ftag with recoverybytes := recoverybytes }

/-- The tag with another size. -/
def withBytes (bytes : Nat) (ftag : Ftag) : Ftag := { ftag with bytes := bytes }

def datastreamSetrecoverypath (path : List Char) : Op Sys Unit := do
  let s ← Op.get
  Op.check (s.stream.type = .create || s.stream.type = .repack)
  Op.check (s.stream.cur.ftag.bytes = 0)
  let finfo := { s.stream.finfo with path := path }
  modifyStream (Stream.setFinfo finfo)
  modifyFtag s.stream.curfile (withRecoverybytes (finfoLength finfo))
  (putftag s.stream.curfile).onFail (do
    modifyFtag s.stream.curfile (withRecoverybytes s.stream.cur.ftag.recoverybytes)
    modifyStream (Stream.setFinfo s.stream.finfo))

/-- A file that is not the first one of its object moves to a fresh one. -/
def shiftExtended : Op Sys Unit := do
  leaveObject
  let s ← Op.get
  modifyFtag s.stream.curfile fun ftag =>
    { ftag with objno := s.stream.objno, offset := s.stream.offset }

def unshare : Op Sys Unit := do
  let s ← Op.get
  if s.stream.curfile ≠ 0 then shiftExtended

def extended (independentobjs dataperobj : Nat) (ftag : Ftag) : Ftag :=
  { ftag with
    state := { (sized ftag).state with writeable := true }
    availbytes := independentobjs * dataperobj }

def resize (length : Nat) : Op Sys Unit := do
  let s ← Op.get
  let restore := modifyFtag s.stream.curfile (withBytes s.stream.cur.ftag.bytes)
  modifyFtag s.stream.curfile (withBytes length)
  let streampos ← (gettargets 0 .set).onFail restore
  (Op.check (streampos.offset = s.stream.recoveryheaderlen)).onFail restore
  let independentobjs :=
    (streampos.dataremaining + streampos.excessremaining) / streampos.dataperobj
  modifyFtag s.stream.curfile (extended independentobjs streampos.dataperobj)
  (putftag s.stream.curfile).onFail freestream

def datastreamExtend (length : Nat) : Op Sys Unit := do
  let s ← Op.get
  let ftag := s.stream.cur.ftag
  Op.check (s.stream.type = .create)
  Op.check ftag.unfinalized
  Op.check (ftag.bytes = 0 || s.stream.datahandle.isNone)
  Op.check (ftag.bytes < length)
  unshare
  resize length

def datastreamTruncate (_length : Nat) : Op Sys Unit := Op.fail

/-! ## The end of a stream -/

def datastreamRelease : Op Sys Unit := do
  let s ← Op.get
  (Op.check (s.stream.cur.ftag.state.writeable && s.stream.curfile = 0)).onFail freestream
  finfile.onFail freestream
  modifyFtag s.stream.curfile fun ftag =>
    { ftag with endofstream := true, availbytes := ftag.bytes }
  (do
    closeCurrentObj
    putftag s.stream.curfile
    call).onFail freestream
  freestream

def datastreamClose : Op Sys Unit := do
  let s ← Op.get
  (Op.check !s.stream.cur.ftag.state.writeable).onFail freestream
  finfile.onFail freestream
  modifyFtag s.stream.curfile fun ftag => { ftag with endofstream := true }
  closeCurrentObj.onFail freestream
  let all ← completeFiles (s.stream.curfile + 1)
  (Op.check all).onFail freestream
  freestream

end Sys

/-! ## Runs -/

/-- The calls a client makes on a stream.  The result of a seek takes as long as it may. -/
inductive Call where
  | create (path : List Char) (stat : FileStat)
  | repack (path : List Char) (stat : FileStat)
  | write (buf : List Char)
  | seek (fuel offset : Nat) (whence : Whence)
  | setrecoverypath (path : List Char)
  | extend (length : Nat)
  | truncate (length : Nat)
  | release
  | close

namespace Sys

def perform : Call → Op Sys Unit
  | .create path stat => datastreamCreate path stat
  | .repack path stat => datastreamRepack path stat
  | .write buf => do let _ ← datastreamWrite buf
  | .seek fuel offset whence => do let _ ← datastreamSeek fuel offset whence
  | .setrecoverypath path => datastreamSetrecoverypath path
  | .extend length => datastreamExtend length
  | .truncate length => datastreamTruncate length
  | .release => datastreamRelease
  | .close => datastreamClose

def fresh (type : StreamType) (scheme : Scheme) (ctag streamid : List Char)
    (outcomes : List (Option Nat)) : Sys :=
  let headerlen := (recoveryHeadertostr
    { majorversion := 0, minorversion := 1, ctag := ctag, streamid := streamid }).length
  let finfo : RecoveryFinfo :=
    { inode := 0, mode := 0, owner := 0, group := 0, size := 0, mtimeSec := 0, mtimeNsec := 0
      eof := false, path := [] }
  let stream : Stream :=
    { type := type, scheme := scheme, ctag := ctag, streamid := streamid
      recoveryheaderlen := headerlen, fileno := 0, objno := 0, offset := headerlen
      excessoffset := 0, datahandle := none, curfile := 0, finfo := finfo
      files := fun _ =>
        { metahandle := false
          ftag :=
            { majorversion := 0, minorversion := 1, ctag := [], streamid := []
              objfiles := scheme.objfiles, objsize := scheme.objsize
              refbreadth := scheme.refbreadth, refdepth := scheme.refdepth
              refdigits := scheme.refdigits, fileno := 0, objno := 0, offset := 0
              endofstream := false, protection := scheme.protection, bytes := 0
              availbytes := 0, recoverybytes := 0
              state := { data := .init, writeable := false, readable := false } } } }
  { stream := stream, live := true, objs := fun _ => [], closed := fun _ => false
    ftags := fun _ => none, outcomes := outcomes, wrapped := false }

def genstream (path : List Char) (stat : FileStat) : Op Sys Unit := do
  let s ← Op.get
  (if s.stream.type = .repack then openRepackFile path stat
    else createNewFile path stat).onFail freestream

def Step (allowed : Sys → Call → Prop) (s s' : Sys) : Prop :=
  ∃ c, s.live = true ∧ allowed s c ∧ s' = (perform c s).2

def Reached (type : StreamType) (scheme : Scheme) (ctag streamid : List Char)
    (allowed : Sys → Call → Prop) (s : Sys) : Prop :=
  ∃ outcomes path stat, Relation.ReflTransGen (Step allowed)
    (genstream path stat (fresh type scheme ctag streamid outcomes)).2 s

variable {type : StreamType} {scheme : Scheme} {ctag streamid : List Char} {allowed : Sys → Call → Prop}
  {s : Sys}

theorem Reached.invariant {P : Sys → Prop} (hs : Reached type scheme ctag streamid allowed s)
    (hst : ∀ outcomes path stat,
      P (genstream path stat (fresh type scheme ctag streamid outcomes)).2)
    (hstep : ∀ s c, P s → s.live = true → allowed s c → P (perform c s).2) : P s := by
  obtain ⟨outcomes, path, stat, hrun⟩ := hs
  induction hrun with
  | refl => exact hst outcomes path stat
  | tail _ hlast ih =>
    obtain ⟨c, hlive, hc, rfl⟩ := hlast
    exact hstep _ c ih hlive hc

theorem Reached.perform (hs : Reached type scheme ctag streamid allowed s) (c : Call) (hlive : s.live = true)
    (hc : allowed s c) : Reached type scheme ctag streamid allowed (perform c s).2 := by
  obtain ⟨outcomes, path, stat, hrun⟩ := hs
  exact ⟨outcomes, path, stat, hrun.tail ⟨c, hlive, hc, rfl⟩⟩

def sampleScheme (objsize : Nat) : Scheme :=
  { objfiles := 4, objsize := objsize, refbreadth := 1, refdepth := 1, refdigits := 1
    protection := { N := 1, E := 0, O := 0, partsz := 1024 } }

def sampleStat : FileStat :=
  { inode := 1, mode := 420, owner := 0, group := 0, size := 0, mtimeSec := 0, mtimeNsec := 0 }

def sampleStream (objsize : Nat) (outcomes : List (Option Nat)) : Sys :=
  (genstream ['a'] sampleStat (fresh .create (sampleScheme objsize) ['c'] ['s'] outcomes)).2

theorem sampleStream_reached (objsize : Nat) (outcomes : List (Option Nat))
    (allowed : Sys → Call → Prop) :
    Reached .create (sampleScheme objsize) ['c'] ['s'] allowed (sampleStream objsize outcomes) :=
  ⟨outcomes, ['a'], sampleStat, .refl⟩

end Sys

end Marfs.Datastream
