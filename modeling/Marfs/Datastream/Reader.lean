import Marfs.Datastream.Stream
import Marfs.Recovery.Object

/-!
# Streams of existing files

A `READ` or `EDIT` stream refers to one file that exists already.  Its position is the number of an
object, an offset in that object, which counts the header, and an excess beyond the data of the file,
which reads as zeros.  The data handle has a position of its own, which the stream keeps up with.

`Reader` adds to such a stream its namespace, the object its data handle was opened for, and the objects
there are.  A path comes with what the MDAL finds under it, so that a file can be opened by its path and
by its reference.
-/

namespace Marfs.Datastream

open Machine Recovery Tagging Sys

/-- A stream of an existing file.  The objects of a stream go by its client tag and its ID; those of the
data handle are `owner`'s, and `place` is how far it is in its object. -/
structure Reader where
  sys : Sys
  idstr : List Char
  owner : List Char × List Char
  place : Nat
  contents : List Char × List Char → Nat → Option (List Char)

/-- `marfs_position`: a namespace, and how its repository lays out data. -/
structure MarfsPosition where
  idstr : List Char
  scheme : Scheme
  deriving DecidableEq, Repr

/-- What the MDAL has under a path: whether the meta file opens, its FTAG, unless that cannot be read,
and its attributes, unless these cannot. -/
structure Target where
  opens : Bool
  ftag : Option (Option Ftag)
  stat : Option FileStat
  deriving DecidableEq, Repr

namespace Sys

/-! ## Opening files -/

/-- `genrecoveryinfo`, of a stream of an existing file: a `READ` stream keeps to the size of the meta
file. -/
def genrecoveryinfo (path : List Char) (stat : FileStat) : Op Sys Unit := do
  let s ← Op.get
  if s.stream.type = .read then
    modifyStream (Stream.setFinfo (stat.finfo stat.size s.stream.finfo.path))
  else do
    let finfo := stat.finfo 0 path
    modifyStream (Stream.setFinfo finfo)
    modifyFtag s.stream.curfile fun ftag =>
      if ftag.recoverybytes = 0 then withRecoverybytes (finfoLength finfo) ftag else ftag

def accessible (type : StreamType) (ftag : Ftag) : Bool :=
  if type = .edit then ftag.state.writeable || ftag.state.data = .comp else ftag.state.readable

def headerLength (ftag : Ftag) : Nat :=
  (recoveryHeadertostr
    { majorversion := 0, minorversion := 1, ctag := ftag.ctag, streamid := ftag.streamid }).length

theorem headerLength_pos (ftag : Ftag) : 0 < headerLength ftag := by
  unfold headerLength recoveryHeadertostr
  simp only [List.length_append, List.length_cons]
  omega

-- the text of a header is long, and not to be spelled out in a goal
attribute [irreducible] headerLength

def inherit (ftag : Ftag) (stream : Stream) : Stream :=
  { stream with
    ctag := ftag.ctag, streamid := ftag.streamid, recoveryheaderlen := headerLength ftag
    fileno := ftag.fileno, objno := ftag.objno, offset := ftag.offset, excessoffset := 0 }

def enterExisting (path : List Char) (stat : Option FileStat) (ftag : Ftag) : Op Sys Unit := do
  let s ← Op.get
  modifyFtag s.stream.curfile fun _ => ftag
  Op.check (accessible s.stream.type ftag)
  let stat ← Op.ofOption stat
  genrecoveryinfo path stat
  Op.check (0 < headerLength ftag)
  modifyStream (inherit ftag)

/-- `open_existing_file`; tells whether there is an FTAG.  Where a `READ` stream finds none, the meta
handle stays open. -/
def openExistingFile (path : List Char) (target : Target) : Op Sys Bool := do
  let s ← Op.get
  let curfile := s.stream.curfile
  modifyFile curfile fun file => { file with metahandle := target.opens }
  Op.check target.opens
  let ftag ← (Op.ofOption target.ftag).onFail (closeMeta curfile)
  match ftag with
  | none => do
    (Op.check (s.stream.type = .read)).onFail (closeMeta curfile)
    pure false
  | some ftag => do
    (enterExisting path target.stat ftag).onFail (closeMeta curfile)
    pure true

def genExisting (type : StreamType) (pos : MarfsPosition) (path : List Char) (target : Target) :
    Option Stream :=
  let blank := fresh type pos.scheme [] [] []
  match openExistingFile path target
    { blank with stream := { blank.stream with recoveryheaderlen := 0, offset := 0 } } with
  | (some true, s) => some s.stream
  | _ => none

/-- Open a file in the place behind the current one; if that fails, the current one stays. -/
def progressFile (preserve : Bool) (path : List Char) (target : Target) : Op Sys Unit := do
  modifyStream fun stream => { stream with curfile := stream.curfile + 1 }
  (do
    let found ← openExistingFile path target
    let s ← Op.get
    -- the caller takes the meta handle of a file without FTAG
    if !found && preserve then closeMeta s.stream.curfile
    Op.check found).onFail
      (modifyStream fun stream => { stream with curfile := stream.curfile - 1 })

/-- The file behind the current one takes its place. -/
def replaceFile : Op Sys Unit :=
  modifyStream fun stream =>
    { (stream.setFile stream.curfile { stream.cur with metahandle := false }).setFile
        (stream.curfile - 1) stream.cur with
      curfile := stream.curfile - 1 }

end Sys

namespace Reader

variable {α : Type}

/-- Something that concerns the stream alone. -/
def onSys (m : Op Sys α) : Op Reader α := Op.zoom Reader.sys (fun s r => { r with sys := s }) m

def gettargets (offset : Nat) (whence : Whence) : Op Reader Position := fun r =>
  ((Sys.gettargets offset whence r.sys).1, r)

/-! ## The data handle -/

/-- The object of the data handle: one that was written before, or what an `EDIT` stream has written
to it. -/
def object (r : Reader) (h : Nat) : List Char :=
  if r.sys.stream.type = .read then (r.contents r.owner h).getD [] else content (r.sys.objs h)

/-- `ne_seek`, which does not go beyond the end of the object; returns where it went. -/
def neSeek (offset : Nat) : Op Reader Nat := do
  let r ← Op.get
  match r.sys.stream.datahandle with
  | none => Op.fail
  | some h => do
    onSys call
    let place := min offset (r.object h).length
    Op.modify fun r => { r with place := place }
    pure place

def seekTo (offset : Nat) : Op Reader Unit := do
  let place ← neSeek offset
  Op.check (place = offset)

def uintMax : Nat := 2 ^ 32 - 1

def neRead (count : Nat) : Op Reader (List Char) := do
  let r ← Op.get
  match r.sys.stream.datahandle with
  | none => Op.fail
  | some h => do
    Op.check (count ≤ uintMax)
    let o ← onSys outcome
    let bytes := (((r.object h).drop r.place).take count).take (o.getD count)
    Op.modify fun r => { r with place := r.place + bytes.length }
    pure bytes

def freshHandle (r : Reader) : Reader :=
  { r with
    sys := { r.sys with stream := { r.sys.stream with datahandle := some r.sys.stream.objno } }
    owner := (r.sys.stream.cur.ftag.ctag, r.sys.stream.cur.ftag.streamid), place := 0 }

def openCurrentObj : Op Reader Unit := do
  -- the target of the object, and the object
  onSys call
  onSys call
  let r ← Op.get
  let ftag := r.sys.stream.cur.ftag
  Op.check (r.contents (ftag.ctag, ftag.streamid) r.sys.stream.objno).isSome
  Op.modify freshHandle
  if r.sys.stream.offset ≠ 0 then (seekTo r.sys.stream.offset).onFail (onSys neAbort)

def openNeeded : Op Reader Unit := do
  let r ← Op.get
  if r.sys.stream.datahandle.isNone then openCurrentObj

/-! ## Seeking -/

def putfinfo : Op Reader Unit := do
  let pos ← gettargets 0 .cur
  let r ← Op.get
  let ftag := r.sys.stream.cur.ftag
  let finfo := { r.sys.stream.finfo with size := pos.totaloffset }
  onSys (modifyStream (Stream.setFinfo finfo))
  Op.check (finfoLength finfo ≤ ftag.recoverybytes)
  let written ← onSys (neWrite (.finfo ftag.fileno) (finfoBlock finfo ftag.recoverybytes))
  Op.check (written = ftag.recoverybytes)
  onSys (modifyStream fun stream => { stream with offset := stream.offset + ftag.recoverybytes })

/-- Recovery info goes to the end of an object that is left for another one. -/
def leaveChunk : Op Reader Unit := do
  putfinfo.onFail (onSys freestream)
  onSys (modifyStream fun stream => stream.setFinfo { stream.finfo with eof := false })

/-- `datastream_seek` goes to another object. -/
def leaveObject : Op Reader Unit := do
  let r ← Op.get
  if r.sys.stream.type = .edit then leaveChunk
  onSys (closeCurrentObj.onFail freestream)

def seekHandle (offset : Nat) : Op Reader Unit := do
  let r ← Op.get
  if r.sys.stream.datahandle.isSome then (seekTo offset).onFail (onSys freestream)

def moveTo (streampos : Position) (stream : Stream) : Stream :=
  { stream with
    objno := streampos.objno, offset := streampos.offset, excessoffset := streampos.excessoffset }

def seekPosition (streampos : Position) : Op Reader Nat := do
  let r ← Op.get
  let stream := r.sys.stream
  -- an `EDIT` stream starts at the beginning of an object
  Op.check (stream.type ≠ .edit || streampos.offset = stream.recoveryheaderlen)
  if stream.objno ≠ streampos.objno && stream.datahandle.isSome then leaveObject
  seekHandle streampos.offset
  onSys (modifyStream (moveTo streampos))
  pure streampos.totaloffset

def datastreamSeek (offset : Nat) (whence : Whence) : Op Reader Nat := do
  let streampos ← gettargets offset whence
  let r ← Op.get
  Op.check (r.sys.stream.type = .read || r.sys.stream.type = .edit)
  seekPosition streampos

/-! ## Reading -/

def nextStream (stream : Stream) : Stream :=
  { stream with objno := stream.objno + 1, offset := stream.recoveryheaderlen }

def findData (dataperobj : Nat) : Op Reader Nat := do
  let r ← Op.get
  let stream := r.sys.stream
  let toread := SizeT.sub dataperobj (SizeT.sub stream.offset stream.recoveryheaderlen)
  if toread = 0 then do
    onSys (closeCurrentObj.onFail freestream)
    onSys (modifyStream nextStream)
    pure dataperobj
  else pure toread

def readPiece (toread : Nat) : Op Reader (List Char) := do
  let piece ← Op.attempt (do openNeeded; neRead toread)
  let bytes := piece.getD []
  onSys (modifyStream fun stream => { stream with offset := stream.offset + bytes.length })
  pure bytes

/-- The loop of `datastream_read`: what has been read, and how much of the request is left.  Every turn
reads something. -/
def readLoop (dataperobj : Nat) : Nat → Nat → List Char → Op Reader (List Char × Nat)
  | 0, count, buf => pure (buf, count)
  | fuel + 1, count, buf =>
    if count = 0 then pure (buf, count)
    else do
      let toread ← findData dataperobj
      let bytes ← readPiece (min toread count)
      -- `return (readbytes) ? readbytes : -1`
      if bytes = [] then do
        Op.check (buf ≠ [])
        pure (buf, count)
      else readLoop dataperobj fuel (count - bytes.length) (buf ++ bytes)

def readTo (dataperobj count zerotailbytes : Nat) : Op Reader (List Char) := do
  let (buf, left) ← readLoop dataperobj count count []
  if left = 0 then do
    onSys (modifyStream fun stream =>
      { stream with excessoffset := stream.excessoffset + zerotailbytes })
    pure (buf ++ List.replicate zerotailbytes '\x00')
  else pure buf

def datastreamRead (count : Nat) : Op Reader (List Char) := do
  let r ← Op.get
  Op.check (r.sys.stream.type = .read)
  Op.check (count < offMax)
  let streampos ← gettargets 0 .cur
  let count := min count (streampos.dataremaining + streampos.excessremaining)
  let zerotailbytes := count - streampos.dataremaining
  readTo streampos.dataperobj (count - zerotailbytes) zerotailbytes

/-! ## Recovery info -/

/-- Where `datastream_recoveryinfo` looks: behind the data that the object still has. -/
def tgtoffset (recoveryheaderlen : Nat) (streampos : Position) : Nat :=
  let tgtoffset := streampos.offset + streampos.dataremaining
  if SizeT.sub tgtoffset recoveryheaderlen > streampos.dataperobj
  then recoveryheaderlen + streampos.dataperobj else tgtoffset

def neClose : Op Reader Unit := do
  let _ ← onSys outcome
  onSys neAbort

/-- The end of `datastream_recoveryinfo`: the handle goes back where it was, or is closed. -/
def returnSeek (offset : Nat) : Op Reader Unit := do
  let back ← Op.attempt (seekTo offset)
  if back.isNone then neClose

/-- `datastream_recoveryinfo`, of what its struct held before.  A buffer that is not filled ends in
zeros. -/
def datastreamRecoveryinfo (uninit : RecoveryFinfo) : Op Reader RecoveryFinfo := do
  let r ← Op.get
  Op.check (r.sys.stream.type = .read)
  let streampos ← gettargets 0 .cur
  openNeeded
  seekTo (tgtoffset r.sys.stream.recoveryheaderlen streampos)
  let recoverybytes := r.sys.stream.cur.ftag.recoverybytes
  let readbytes ← neRead recoverybytes
  Op.check (readbytes ≠ [])
  returnSeek streampos.offset
  let infobuf := readbytes ++ List.replicate (recoverybytes - readbytes.length) '\x00'
  match finfofromBuffer infobuf uninit with
  | .done finfo => pure finfo
  | _ => Op.fail

/-! ## Opening -/

def datastreamRelease : Op Reader Unit := do
  let r ← Op.get
  if r.sys.stream.type = .edit && r.sys.stream.datahandle.isSome then
    putfinfo.onFail (onSys freestream)
  onSys (closeCurrentObj.onFail freestream)
  onSys freestream

def replaceStream (pos : MarfsPosition) (path : List Char) (target : Target) : Op Reader Unit := do
  let r ← Op.get
  let newstream := genExisting r.sys.stream.type pos path target
  datastreamRelease
  let newstream ← Op.ofOption newstream
  Op.modify fun r => { r with
    sys := { r.sys with stream := newstream, live := true }, idstr := pos.idstr }

/-- The object of the stream is closed, unless the new file starts in the object as well, which the
stream `old` was at; then `reposition` moves the data handle to the start of the file. -/
def enterObject (old : Reader) (reposition : Nat → Op Reader Unit) : Op Reader Unit := do
  let new ← Op.get
  let oldtag := old.sys.stream.cur.ftag
  let newtag := new.sys.stream.cur.ftag
  if oldtag.streamid ≠ newtag.streamid || oldtag.ctag ≠ newtag.ctag ||
      old.sys.stream.objno ≠ newtag.objno then
    onSys (closeCurrentObj.onFail freestream)
  else (reposition newtag.offset).onFail (onSys freestream)

/-- A file of the same namespace takes the place of the current one. -/
def reuseStream (preserve : Bool) (path : List Char) (target : Target)
    (reposition : Nat → Op Reader Unit) : Op Reader Unit := do
  let old ← Op.get
  onSys (progressFile preserve path target)
  enterObject old reposition
  onSys replaceFile

def seekOpened (offset : Nat) : Op Reader Unit := do
  let r ← Op.get
  if r.sys.stream.datahandle.isSome then seekTo offset

/-- `datastream_open`, of a stream there is; `preserve` is whether the caller takes meta handles. -/
def datastreamOpen (preserve : Bool) (type : StreamType) (pos : MarfsPosition) (path : List Char)
    (target : Target) : Op Reader Unit := do
  let r ← Op.get
  Op.check (r.sys.stream.type = type)
  if r.idstr ≠ pos.idstr || type = .edit then replaceStream pos path target
  else reuseStream preserve path target seekOpened

def datastreamScan (pos : MarfsPosition) (refpath : List Char) (target : Target) : Op Reader Unit := do
  let r ← Op.get
  Op.check (r.sys.stream.type = .read)
  if r.idstr ≠ pos.idstr then replaceStream pos refpath target
  else reuseStream false refpath target seekTo

def opened (type : StreamType) (pos : MarfsPosition) (path : List Char) (target : Target)
    (contents : List Char × List Char → Nat → Option (List Char)) (outcomes : List (Option Nat)) :
    Option Reader :=
  (genExisting type pos path target).map fun stream =>
    { sys := { fresh type pos.scheme [] [] outcomes with stream := stream }
      idstr := pos.idstr, owner := ([], []), place := 0, contents := contents }

def targetOf (s : Sys) (fileno : Nat) : Target :=
  { opens := true, ftag := some (s.ftags fileno)
    stat := (s.ftags fileno).map fun ftag => { sampleStat with size := ftag.bytes } }

def contentsOf (s : Sys) : List Char × List Char → Nat → Option (List Char) := fun owner i =>
  if owner = (s.stream.ctag, s.stream.streamid) && s.closed i then some (content (s.objs i)) else none

def readerOf (s : Sys) (fileno : Nat) : Option Reader :=
  opened .read { idstr := ['n'], scheme := s.stream.scheme } ['a'] (targetOf s fileno) (contentsOf s) []

end Reader

end Marfs.Datastream
