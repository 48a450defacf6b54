import Marfs.Datastream.Filebounds
import Marfs.Rman.Opinfo

/-!
# Walking a datastream

The stream walker reads the reference files of one datastream in order, follows the gaps recorded
in GCTAGs, and accumulates the operations a stream needs: reference and object deletions under a GC
threshold, object rebuilds under a rebuild threshold.

The reference files of the stream are a list indexed by file number; `none` stands for a number
without a reference.  MDAL calls on files that exist succeed and stored tags parse, so that the
failures left are those the walker itself detects.  `objtarget` is `datastream_objtarget`, of which
the walker only reads the location.  The walker never links a repack op (that part of the source is
a TODO), so its `rpckops` chain, always NULL, is left out together with its dispatch.
-/

namespace Marfs.Rman

open Datastream Tagging

structure Thresholds where
  gcthreshold : Int
  repackthreshold : Int
  rebuildthreshold : Int
  cleanupthreshold : Int
  deriving DecidableEq, Repr

/-- `ne_location`; a negative component of a rebuild target matches any location. -/
structure NeLocation where
  pod : Int
  cap : Int
  scatter : Int
  deriving DecidableEq, Repr

structure StreamwalkerReport where
  fileusage : Nat := 0
  byteusage : Nat := 0
  filecount : Nat := 0
  objcount : Nat := 0
  bytecount : Nat := 0
  streamcount : Nat := 0
  delobjs : Nat := 0
  delfiles : Nat := 0
  delstreams : Nat := 0
  volfiles : Nat := 0
  rbldobjs : Nat := 0
  deriving DecidableEq, Repr

/-- The fields of `struct stat` the walker reads. -/
structure RefStat where
  nlink : Nat
  ctime : Int
  size : Nat
  deriving DecidableEq, Repr

/-- A reference file: its stat values and the two tags that may be attached to it. -/
structure RefFile where
  stat : RefStat
  ftag : Option Ftag
  gctag : Option Gctag
  deriving DecidableEq, Repr

/-- The reference files of one datastream, by file number. -/
abbrev Refs := List (Option RefFile)

def Refs.file (refs : Refs) (fileno : Nat) : Option RefFile := refs[fileno]?.join

structure Streamwalker where
  gcthresh : Int
  repackthresh : Int
  rebuildthresh : Int
  cleanupthresh : Int
  rebuildloc : NeLocation
  report : StreamwalkerReport
  fileno : Nat
  objno : Nat
  stval : RefStat
  ftag : Ftag
  gctag : Gctag
  headerlen : Nat
  gcops : List Opinfo
  activefiles : Nat
  activeindex : Nat
  activebytes : Nat
  rbldops : List Opinfo
  deriving DecidableEq, Repr

/-- `filestate` of a file that exists: link counts above one mean that a user path remains. -/
def RefStat.active (stval : RefStat) : Bool := decide (1 < stval.nlink)

/-- An inactive file is old enough to be collected. -/
def RefStat.expired (stval : RefStat) (gcthresh : Int) : Bool :=
  gcthresh ≠ 0 && decide (stval.ctime < gcthresh)

namespace Streamwalker

/-- What `process_getfileinfo` stores from an existing file.  Without `getxattrs` the tags are not
read; a missing FTAG leaves the previous one in place. -/
def loadFile (walker : Streamwalker) (file : RefFile) (getxattrs : Bool) : Streamwalker :=
  if getxattrs then
    { walker with
      stval := file.stat
      gctag := file.gctag.getD Gctag.none
      ftag := file.ftag.getD walker.ftag }
  else { walker with stval := file.stat, gctag := Gctag.none }

/-- Full walks read the tags of every file. -/
def pullxattrs (walker : Streamwalker) : Bool :=
  walker.gcthresh ≠ 0 || walker.repackthresh ≠ 0 || walker.rebuildthresh ≠ 0

def updateDelref (walker : Streamwalker) (ftag : Ftag) (update : Opinfo → Option Opinfo) :
    Option Streamwalker :=
  (updateOperation walker.gcops .deleteRef ftag update).map fun gcops =>
    { walker with gcops := gcops }

def deleteObj (walker : Streamwalker) (tmptag : Ftag) : Option Streamwalker :=
  (deleteObject walker.gcops tmptag).map fun gcops =>
    { walker with
      gcops := gcops
      report := { walker.report with delobjs := walker.report.delobjs + 1 } }

def deleteSpan : Nat → Streamwalker → Ftag → Option Streamwalker
  | 0, walker, _ => some walker
  | n + 1, walker, tmptag => do
    let walker ← walker.deleteObj tmptag
    deleteSpan n walker (tmptag.atObj (tmptag.objno + 1))

def rebuildTarget (walker : Streamwalker) (location : NeLocation) : Bool :=
  (walker.rebuildloc.pod < 0 || walker.rebuildloc.pod == location.pod) &&
    (walker.rebuildloc.cap < 0 || walker.rebuildloc.cap == location.cap) &&
    (walker.rebuildloc.scatter < 0 || walker.rebuildloc.scatter == location.scatter)

def rebuildObj (objtarget : Ftag → Option NeLocation) (walker : Streamwalker) (tmptag : Ftag) :
    Option Streamwalker := do
  let location ← objtarget tmptag
  if walker.rebuildTarget location then
    let rbldops ← updateOperation walker.rbldops .rebuild tmptag (countObject tmptag)
    some { walker with
      rbldops := rbldops
      report := { walker.report with rbldobjs := walker.report.rbldobjs + 1 } }
  else some walker

def rebuildSpan (objtarget : Ftag → Option NeLocation) :
    Nat → Streamwalker → Ftag → Option Streamwalker
  | 0, walker, _ => some walker
  | n + 1, walker, tmptag => do
    let walker ← walker.rebuildObj objtarget tmptag
    rebuildSpan objtarget n walker (tmptag.atObj (tmptag.objno + 1))

/-! ## Stages common to file zero and later files -/

/-- The current file is inactive and old enough to be collected. -/
def collects (walker : Streamwalker) : Bool :=
  !walker.stval.active && walker.stval.expired walker.gcthresh

/-- The current file is inactive, but was deactivated too recently to be collected. -/
def assumeactive (walker : Streamwalker) : Bool :=
  !walker.stval.active && !walker.stval.expired walker.gcthresh &&
    decide (walker.gcthresh ≤ walker.stval.ctime)

/-- Run the GC stage of an eligible file. -/
def collectWith (walker : Streamwalker) (gc : Streamwalker → Option Streamwalker) :
    Option Streamwalker :=
  if walker.collects then gc walker else some walker

def noteVolatile (walker : Streamwalker) : Streamwalker :=
  if walker.assumeactive then
    { walker with report := { walker.report with volfiles := walker.report.volfiles + 1 } }
  else walker

/-- Rebuilds of the objects an active file spans: its last object is left to the files that
share it, unless none follows. -/
def rebuildFile (objtarget : Ftag → Option NeLocation) (walker : Streamwalker) (endobj : Nat)
    (eos : Bool) : Option Streamwalker :=
  if walker.stval.active && walker.rebuildthresh ≠ 0 &&
      walker.stval.ctime < walker.rebuildthresh then
    let finobj := if eos then endobj + 1 else endobj
    rebuildSpan objtarget (finobj - walker.ftag.objno) walker walker.ftag
  else some walker

/-! ## Opening a walker -/

/-- The deletion of file zero, when it is the last reference of its stream. -/
def openSole (walker : Streamwalker) (op : Opinfo) : Opinfo :=
  { op with count := 1 }.setDelref
    { op.delrefinf with prevActiveIndex := walker.activeindex, eos := true }

/-- The 'dummy' reference deletion that drops a `delzero` tag on file zero.  The gap of an existing
GCTAG is kept, as a deletion of the files after zero. -/
def openDummy (walker : Streamwalker) (eos : Bool) (op : Opinfo) : Opinfo :=
  let op :=
    if op.count = 0 && walker.gctag.refcnt ≠ 0 then
      { op with
        count := walker.gctag.refcnt
        ftag := op.ftag.atFile (op.ftag.fileno + 1) }
    else op
  op.setDelref { op.delrefinf with delzero := true, eos := eos }

/-- Only GC the initial reference if it is the last one remaining. -/
def openSoleRef (walker : Streamwalker) (eos : Bool) : Option Streamwalker :=
  if eos then
    (walker.updateDelref walker.ftag fun op => some (walker.openSole op)).map fun walker =>
      { walker with report :=
        { walker.report with
          delfiles := walker.report.delfiles + 1
          delstreams := walker.report.delstreams + 1 } }
  else some walker

/-- The objects of an eligible file zero go right away: all but the last, which later files may
share, and the last as well when no file follows. -/
def openObjs (walker : Streamwalker) (endobj : Nat) (eos : Bool) : Option Streamwalker :=
  if (endobj ≠ walker.objno || eos) && !walker.gctag.delzero then
    let finobj := if eos then endobj + 1 else endobj
    (deleteSpan (finobj - walker.ftag.objno) walker walker.ftag).bind fun walker =>
      walker.updateDelref walker.ftag fun op => some (walker.openDummy eos op)
  else some walker

def openEligible (walker : Streamwalker) (endobj : Nat) (eos : Bool) : Option Streamwalker :=
  (walker.openSoleRef eos).bind fun walker => walker.openObjs endobj eos

def openReport (walker : Streamwalker) (endobj : Nat) (eos : Bool) : StreamwalkerReport :=
  let report := walker.report
  let objcount :=
    if walker.pullxattrs then
      if !walker.gctag.delzero then report.objcount + (endobj + 1)
      else if !eos then report.objcount + 1 else report.objcount
    else report.objcount
  { report with
    filecount := report.filecount + 1
    bytecount := report.bytecount + walker.ftag.bytes
    streamcount := report.streamcount + 1
    objcount := objcount
    fileusage := if walker.stval.active then report.fileusage + 1 else report.fileusage
    byteusage :=
      if walker.stval.active then report.byteusage + walker.ftag.bytes else report.byteusage }

end Streamwalker

/-- The outcomes of `process_openstreamwalker`: `-1`; `1` (unlink the initial reference); `0`
without a walker; `0` with one. -/
inductive OpenResult where
  | failed
  | cleanup
  | untagged
  | opened (walker : Streamwalker)
  deriving DecidableEq, Repr

namespace Streamwalker

/-- A live file zero makes the first object live; the walker moves on to the last object. -/
def openActive (walker : Streamwalker) (endobj : Nat) : Streamwalker :=
  if walker.stval.active || walker.assumeactive then
    { walker with
      activefiles := walker.activefiles + 1
      activebytes := walker.activebytes + walker.ftag.bytes
      objno := endobj }
  else { walker with objno := endobj }

def initial (thresh : Thresholds) (rebuildloc : Option NeLocation) (file : RefFile) (ftag : Ftag) :
    Streamwalker :=
  { gcthresh := thresh.gcthreshold
    repackthresh := thresh.repackthreshold
    rebuildthresh := thresh.rebuildthreshold
    cleanupthresh := thresh.cleanupthreshold
    rebuildloc := rebuildloc.getD { pod := 0, cap := 0, scatter := 0 }
    report := {}
    fileno := 0
    objno := 0
    stval := file.stat
    ftag := ftag
    gctag := file.gctag.getD Gctag.none
    headerlen := Datastream.headerlen ftag
    gcops := []
    activefiles := 0
    activeindex := 0
    activebytes := 0
    rbldops := [] }

/-- State checks of file zero, once its tags are loaded. -/
def openFile (objtarget : Ftag → Option NeLocation) (walker : Streamwalker) :
    Option Streamwalker := do
  let endobj := datastreamFilebounds walker.ftag
  let eos := walker.ftag.endofstream || walker.ftag.unfinalized || walker.gctag.eos
  let walker ← walker.collectWith fun walker => walker.openEligible endobj eos
  let walker := walker.noteVolatile
  let walker := { walker with report := walker.openReport endobj eos }
  let walker ← walker.rebuildFile objtarget endobj eos
  some (walker.openActive endobj)

end Streamwalker

def processOpenstreamwalker (objtarget : Ftag → Option NeLocation) (refs : Refs)
    (thresh : Thresholds) (rebuildloc : Option NeLocation) : OpenResult :=
  if thresh.rebuildthreshold ≠ 0 ∧ rebuildloc = none then .failed
  else
    match refs.file 0 with
    | none => .failed
    | some file =>
      match file.ftag with
      | none =>
        if !file.stat.active && file.stat.expired thresh.gcthreshold then .cleanup else .untagged
      | some ftag =>
        match (Streamwalker.initial thresh rebuildloc file ftag).openFile objtarget with
        | none => .failed
        | some walker => .opened walker

/-! ## One turn of the walking loop -/

namespace Streamwalker

def addInprog (walker : Streamwalker) (op : Opinfo) : Option Opinfo :=
  if op.count ≠ 0 then
    -- sanity check: the op reaches the walker's position
    if op.ftag.fileno + op.count - 1 ≠ walker.fileno then none
    else some ({ op with count := op.count + walker.gctag.refcnt }.setDelref
      { op.delrefinf with eos := op.delrefinf.eos || walker.gctag.eos })
  else some ({ op with
      count := walker.gctag.refcnt
      ftag := op.ftag.atFile walker.ftag.fileno }.setDelref
    { op.delrefinf with prevActiveIndex := walker.activeindex, eos := walker.gctag.eos })

def addReference (walker : Streamwalker) (eos : Bool) (op : Opinfo) : Option Opinfo :=
  if op.count ≠ 0 then
    -- sanity check: no live file since the op was started
    if op.delrefinf.prevActiveIndex ≠ walker.activeindex then none
    else some ({ op with count := op.count + 1 + walker.gctag.refcnt }.setDelref
      { op.delrefinf with eos := op.delrefinf.eos || eos })
  else some ({ op with
      count := 1 + walker.gctag.refcnt
      ftag := op.ftag.atFile walker.ftag.fileno }.setDelref
    { op.delrefinf with prevActiveIndex := walker.activeindex, eos := eos })

/-- Note on a reference deletion that object zero is deleted. -/
def noteDelzero (op : Opinfo) : Opinfo :=
  op.setDelref { op.delrefinf with delzero := true }

/-- Recovery of an in-progress GCTAG: the references it lists are added to the pending op. -/
def recoverInprog (walker : Streamwalker) : Option Streamwalker :=
  if walker.gctag.refcnt ≠ 0 && walker.gctag.inprog && walker.gcthresh ≠ 0 then
    let nexttag := walker.ftag.atFile (walker.ftag.fileno + 1)
    (walker.updateDelref nexttag walker.addInprog).map fun walker =>
      { walker with
        report := { walker.report with delfiles := walker.report.delfiles + walker.gctag.refcnt }
        gctag := { walker.gctag with inprog := false } }
  else some walker

/-- The reference deletion of an eligible file joins the pending op, or starts a new one. -/
def eligibleRef (walker : Streamwalker) (ftag : Ftag) (eos : Bool) : Option Streamwalker :=
  (walker.updateDelref ftag (walker.addReference eos)).map fun walker =>
    { walker with report := { walker.report with delfiles := walker.report.delfiles + 1 } }

/-- A file without an FTAG ends the walk; an eligible one is added to the pending op, which is
always set to end the stream. -/
def trailingFile (walker : Streamwalker) (tmptag : Ftag) : Option Streamwalker :=
  if walker.collects then walker.eligibleRef tmptag true
  else some { walker with report := { walker.report with volfiles := walker.report.volfiles + 1 } }

def countTransition (walker : Streamwalker) : Streamwalker :=
  if walker.pullxattrs then
    { walker with report := { walker.report with objcount := walker.report.objcount + 1 } }
  else walker

def deleteNoted (walker : Streamwalker) (tmptag : Ftag) : Option Streamwalker :=
  (walker.deleteObj tmptag).bind fun walker =>
    if tmptag.objno = 0 then walker.updateDelref walker.ftag fun op => some (noteDelzero op)
    else some walker

/-- Delete the object left behind, if no live file touched it and it is not an already deleted
object zero. -/
def leavePrevObj (walker : Streamwalker) (prevdelzero : Bool) : Option Streamwalker :=
  if walker.gcthresh ≠ 0 && walker.activefiles = 0 && (walker.objno ≠ 0 || !prevdelzero) then
    walker.deleteNoted (walker.ftag.atObj walker.objno)
  else some walker

/-- Rebuild the object left behind, if a live file touched it. -/
def rebuildPrevObj (objtarget : Ftag → Option NeLocation) (walker : Streamwalker) :
    Option Streamwalker :=
  if walker.rebuildthresh ≠ 0 && walker.activefiles ≠ 0 &&
      walker.stval.ctime < walker.rebuildthresh then
    walker.rebuildObj objtarget (walker.ftag.atObj walker.objno)
  else some walker

/-- Progress to the first object of the current file. -/
def enterObj (walker : Streamwalker) : Streamwalker :=
  { walker with activefiles := 0, activebytes := 0, objno := walker.ftag.objno }

def objectTransition (objtarget : Ftag → Option NeLocation) (walker : Streamwalker)
    (prevdelzero : Bool) : Option Streamwalker :=
  if walker.ftag.objno ≠ walker.objno then do
    let walker ← walker.countTransition.leavePrevObj prevdelzero
    let walker ← walker.rebuildPrevObj objtarget
    some walker.enterObj
  else some walker

/-- The first object of an eligible file that does not end in it, unless a live file shares it. -/
def eligibleFirstObj (walker : Streamwalker) : Option Streamwalker :=
  if walker.activefiles = 0 && (walker.ftag.objno ≠ 0 || !walker.gctag.delzero) then
    walker.deleteNoted walker.ftag
  else some walker

/-- The objects an eligible file leaves without a live reference: its first one unless a live file
shares it, then all but the last. -/
def eligibleObjs (walker : Streamwalker) (endobj : Nat) : Option Streamwalker :=
  if endobj ≠ walker.objno then do
    let walker ← walker.eligibleFirstObj
    deleteSpan (endobj - (walker.ftag.objno + 1)) walker
      (walker.ftag.atObj (walker.ftag.objno + 1))
  else some walker

def eligibleFinalObj (walker : Streamwalker) (endobj : Nat) (eos : Bool) : Option Streamwalker :=
  if eos && (endobj ≠ walker.objno || walker.activefiles = 0) then
    walker.deleteObj (walker.ftag.atObj endobj)
  else some walker

def eligibleFile (walker : Streamwalker) (endobj : Nat) (eos : Bool) : Option Streamwalker := do
  let walker ← walker.eligibleRef walker.ftag eos
  let walker ← walker.eligibleObjs endobj
  walker.eligibleFinalObj endobj eos

def noteFile (walker : Streamwalker) (haveftag : Bool) : Streamwalker :=
  let report := walker.report
  let bytes := if haveftag then walker.ftag.bytes else walker.stval.size
  { walker with report :=
    { report with
      filecount := report.filecount + 1
      bytecount := report.bytecount + bytes
      fileusage := if walker.stval.active then report.fileusage + 1 else report.fileusage
      byteusage := if walker.stval.active then report.byteusage + bytes else report.byteusage } }

/-- The walker moves past the objects the file spans; pending rebuilds are dispatched. -/
def passObjects (walker : Streamwalker) (endobj : Nat) : Streamwalker × List Opinfo :=
  if walker.objno ≠ endobj then
    let objcount := walker.report.objcount + (endobj - walker.objno)
    ({ walker with
      activefiles := 0
      activebytes := 0
      report := if walker.pullxattrs then { walker.report with objcount := objcount }
        else walker.report
      rbldops := [] }, walker.rbldops)
  else (walker, [])

/-- A live file becomes the walker's active index; pending GC ops are dispatched. -/
def passActive (walker : Streamwalker) (fileno : Nat) : Streamwalker × List Opinfo :=
  if walker.stval.active || walker.assumeactive then
    let bytes := if walker.pullxattrs then walker.ftag.bytes else walker.stval.size
    ({ walker with
      activeindex := fileno
      activefiles := walker.activefiles + 1
      activebytes := walker.activebytes + bytes
      gcops := [] }, walker.gcops)
  else (walker, [])

def enterFile (objtarget : Ftag → Option NeLocation) (walker : Streamwalker)
    (prevdelzero : Bool) : Option Streamwalker :=
  if walker.pullxattrs then walker.objectTransition objtarget prevdelzero else some walker

def fileEos (walker : Streamwalker) : Bool :=
  walker.ftag.endofstream || walker.ftag.unfinalized ||
    (walker.gctag.refcnt ≠ 0 && walker.gctag.eos)

/-- A file that exists and whose tags, if pulled, were found: the rest of the loop body.  The
result is the walker at that file, with the GC and rebuild ops it dispatches.  A GC threshold
makes the walker pull tags, so that a file that is collected always has its FTAG. -/
def visitFile (objtarget : Ftag → Option NeLocation) (walker : Streamwalker) (prevdelzero : Bool)
    (tgtoffset : Nat) : Option (Streamwalker × List Opinfo × List Opinfo) :=
  let haveftag := walker.pullxattrs
  let fileno := walker.fileno + tgtoffset
  if haveftag && walker.ftag.fileno ≠ fileno then none
  else do
    let endobj := if haveftag then datastreamFilebounds walker.ftag else walker.objno
    let eos := haveftag && walker.fileEos
    let walker ← walker.enterFile objtarget prevdelzero
    let walker ← walker.collectWith fun walker => walker.eligibleFile endobj eos
    let walker := walker.noteVolatile.noteFile haveftag
    let walker ← walker.rebuildFile objtarget endobj eos
    let (walker, rbldops) := walker.passObjects endobj
    let (walker, gcops) := walker.passActive fileno
    some ({ walker with fileno := fileno, objno := endobj }, gcops, rbldops)

end Streamwalker

/-- How one turn of the loop of `process_iteratestreamwalker` ends: `return -1`; leaving the loop;
the next turn; `return 1` with dispatched ops. -/
inductive IterateStep where
  | failed
  | left (walker : Streamwalker)
  | again (walker : Streamwalker)
  | dispatched (walker : Streamwalker) (gcops rbldops : List Opinfo)
  deriving DecidableEq, Repr

namespace Streamwalker

/-- Note on a reference deletion that it ends the stream. -/
def noteEos (op : Opinfo) : Opinfo := op.setDelref { op.delrefinf with eos := true }

def assumeEos (walker : Streamwalker) (tmptag : Ftag) : Option Streamwalker :=
  if walker.gcthresh ≠ 0 && (searchoperations walker.gcops .deleteRef tmptag).isSome then
    walker.updateDelref tmptag fun op => some (noteEos op)
  else some walker

/-- The next reference is missing: a file whose tags were not read may carry a GCTAG, otherwise
the stream is broken, or was never continued after a finalized file. -/
def missingFile (refs : Refs) (walker : Streamwalker) (tmptag : Ftag) : IterateStep :=
  if walker.fileno = 0 then .failed
  else if walker.fileno = walker.ftag.fileno then
    if walker.ftag.state.data = .fin then
      match walker.assumeEos tmptag with
      | none => .failed
      | some walker => .left { walker with ftag := { walker.ftag with endofstream := true } }
    else .failed
  else
    match refs.file walker.fileno with
    | none => .failed
    | some file =>
      let walker := walker.loadFile file true
      if file.ftag.isNone then
        match walker.trailingFile (tmptag.atFile walker.fileno) with
        | none => .failed
        | some walker =>
          .left { walker with
            ftag := { walker.ftag with
              state := { data := .init, writeable := false, readable := false } } }
      else .again walker

def untaggedFile (walker : Streamwalker) (tmptag : Ftag) : IterateStep :=
  let walker := { walker with report :=
    { walker.report with
      filecount := walker.report.filecount + 1
      bytecount := walker.report.bytecount + walker.stval.size } }
  match walker.trailingFile tmptag with
  | none => .failed
  | some walker => .left walker

def afterVisit : Option (Streamwalker × List Opinfo × List Opinfo) → IterateStep
  | none => .failed
  | some (walker, [], []) => .again walker
  | some (walker, gcops, rbldops) => .dispatched walker gcops rbldops

/-- One turn of the loop. -/
def iterateStep (objtarget : Ftag → Option NeLocation) (refs : Refs) (walker : Streamwalker) :
    IterateStep :=
  if walker.ftag.endofstream || walker.ftag.unfinalized then .left walker
  else
    match walker.recoverInprog with
    | none => .failed
    | some walker =>
      if walker.gctag.refcnt ≠ 0 && walker.gctag.eos then .left walker
      else
        let tgtoffset := 1 + walker.gctag.refcnt
        let tmptag := walker.ftag.atFile (walker.fileno + tgtoffset)
        match refs.file (walker.fileno + tgtoffset) with
        | none => missingFile refs walker tmptag
        | some file =>
          let prevdelzero := walker.gctag.delzero
          let walker := walker.loadFile file walker.pullxattrs
          if walker.pullxattrs && file.ftag.isNone then walker.untaggedFile tmptag
          else afterVisit (walker.visitFile objtarget prevdelzero tgtoffset)

end Streamwalker

/-! ## Whole walks -/

/-- The outcomes of `process_iteratestreamwalker`: `-1`; `1` with the ops it dispatched; `0`. -/
inductive IterateResult where
  | outOfFuel
  | failed
  | dispatched (walker : Streamwalker) (gcops rbldops : List Opinfo)
  | complete (walker : Streamwalker)
  deriving DecidableEq, Repr

def Streamwalker.dispatchRemaining (walker : Streamwalker) : IterateResult :=
  if walker.gcops = [] ∧ walker.rbldops = [] then .complete walker
  else .dispatched { walker with gcops := [], rbldops := [] } walker.gcops walker.rbldops

def iterateLoop (objtarget : Ftag → Option NeLocation) (refs : Refs) :
    Nat → Streamwalker → IterateResult
  | 0, _ => .outOfFuel
  | fuel + 1, walker =>
    match walker.iterateStep objtarget refs with
    | .failed => .failed
    | .left walker => walker.dispatchRemaining
    | .again walker => iterateLoop objtarget refs fuel walker
    | .dispatched walker gcops rbldops => .dispatched walker gcops rbldops

/-- `process_iteratestreamwalker`.  A turn moves to a later reference, or re-reads the current one
once when the walk does not pull tags; a GC walk never meets the bound
(`iterateLoop_adequate`). -/
def processIteratestreamwalker (objtarget : Ftag → Option NeLocation) (refs : Refs)
    (walker : Streamwalker) : IterateResult :=
  iterateLoop objtarget refs (2 * refs.length + 2) walker

/-- How far a caller's repeated calls got. -/
inductive WalkStatus where
  | failed
  | unwalked
  | running (walker : Streamwalker)
  | complete (walker : Streamwalker)
  deriving DecidableEq, Repr

/-- What a caller saw: the chains dispatched, in order, and where the walk stands. -/
structure Walk where
  gcops : List (List Opinfo)
  rbldops : List (List Opinfo)
  status : WalkStatus
  deriving DecidableEq, Repr

def iterateCalls (objtarget : Ftag → Option NeLocation) (refs : Refs) :
    Nat → Streamwalker → Walk
  | 0, walker => { gcops := [], rbldops := [], status := .running walker }
  | n + 1, walker =>
    match processIteratestreamwalker objtarget refs walker with
    | .outOfFuel => { gcops := [], rbldops := [], status := .failed }
    | .failed => { gcops := [], rbldops := [], status := .failed }
    | .complete walker => { gcops := [], rbldops := [], status := .complete walker }
    | .dispatched walker gcops rbldops =>
      let rest := iterateCalls objtarget refs n walker
      { rest with gcops := gcops :: rest.gcops, rbldops := rbldops :: rest.rbldops }

def walkStream (objtarget : Ftag → Option NeLocation) (refs : Refs) (thresh : Thresholds)
    (rebuildloc : Option NeLocation) (n : Nat) : Walk :=
  match processOpenstreamwalker objtarget refs thresh rebuildloc with
  | .failed => { gcops := [], rbldops := [], status := .failed }
  | .cleanup => { gcops := [], rbldops := [], status := .unwalked }
  | .untagged => { gcops := [], rbldops := [], status := .unwalked }
  | .opened walker => iterateCalls objtarget refs n walker

end Marfs.Rman
