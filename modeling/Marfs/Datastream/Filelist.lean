import Marfs.Config.SizeNode
import Marfs.Datastream.StreamSpec

/-!
# The list of a stream's files

The files that share the object of a stream stay open in a list, `files`, of which `curfile` is the
last one in use.  The list has room for `filealloc` files; when a new file needs more,
`allocfiles` asks `realloc` for a longer one, up to one file beyond those an object may hold.

A `Listed` stream is one whose list has a length.  What does not touch the length is what it was for
a stream with a list without bounds; `create_new_file` and `open_repack_file` are told again, with
the room they ask for.  The lengths of lists that exist do not wrap.
-/

namespace Marfs.Datastream

open Machine Recovery Tagging Config

/-! ## How many files an object may hold -/

/-- The configurations of `objfiles`: one where there is no `packing` definition, and whatever
`max_files` says where there is one. -/
def Configured (objfiles : Nat) : Prop :=
  objfiles = 1 ∨ ∃ content, parseSizeNode content = some objfiles

theorem Configured.succ_lt {objfiles : Nat} (h : Configured objfiles) : objfiles + 1 < SizeT.modulus := by
  rcases h with rfl | ⟨content, h⟩
  · decide
  · have hlt := parseSizeNode_lt h
    omega

/-! ## The state -/

/-- A stream, the length of its list of files, and what `realloc` is going to do; where the list
ends, it succeeds. -/
structure Listed where
  sys : Sys
  filealloc : Nat
  reallocs : List Bool

def initialFileAlloc : Nat := 64

def fileAllocMult : Nat := 2

def allocsize (current max : Nat) : Nat :=
  let size := if current < initialFileAlloc then initialFileAlloc else current * fileAllocMult
  if max ≠ 0 ∧ size > max then max else size

/-- The files of a list that was extended: the meta handles of the new places are null. -/
def nullHandles (current size : Nat) (stream : Stream) : Stream :=
  { stream with files := fun i =>
      if current ≤ i ∧ i < size then { stream.files i with metahandle := false }
      else stream.files i }

namespace Listed

open Sys

variable {α : Type}

/-- Something that does not touch the length of the list. -/
def onSys (m : Op Sys α) : Op Listed α := fun l =>
  match m l.sys with
  | (result, s) => (result, { l with sys := s })

def setFilealloc (filealloc : Nat) : Op Listed Unit :=
  Op.modify fun l => { l with filealloc := filealloc }

def realloc : Op Listed Bool := fun l =>
  match l.reallocs with
  | [] => (some true, l)
  | ok :: reallocs => (some ok, { l with reallocs := reallocs })

/-- `allocfiles`: the length of the extended list, or zero. -/
def allocfiles (current max : Nat) : Op Listed Nat := do
  let ok ← realloc
  if ok then do
    onSys (modifyStream (nullHandles current (allocsize current max)))
    pure (allocsize current max)
  else pure 0

/-- The cap that streams which write pass to `allocfiles`. -/
def maxFiles (scheme : Scheme) : Nat := SizeT.wrap (scheme.objfiles + 1)

def reserve : Op Listed Unit := do
  let l ← Op.get
  let stream := l.sys.stream
  if stream.curfile ≥ l.filealloc then do
    let filealloc ← allocfiles l.filealloc (maxFiles stream.scheme)
    setFilealloc filealloc
    if filealloc = 0 then do
      setFilealloc (SizeT.sub stream.curfile 1)
      Op.fail

/-! ## New files -/

def linkNewFile (finfo : RecoveryFinfo) : Op Sys Ftag := do
  let s ← Op.get
  call
  let ftag ← placeFile (s.stream.newFtag (finfoLength finfo))
  call
  Op.modify (store ftag)
  call
  pure ftag

def createNewFile (path : List Char) (stat : FileStat) : Op Listed Unit := do
  let l ← Op.get
  onSys call
  onSys call
  let finfo := stat.finfo 0 path
  (do
    let ftag ← onSys (linkNewFile finfo)
    reserve
    onSys (modifyStream fun stream =>
      stream.enter { metahandle := true, ftag := ftag } finfo)).onFail
      (onSys (unlinkref l.sys.stream.fileno))

def openRepackFile (path : List Char) (stat : FileStat) : Op Listed Unit := do
  reserve
  onSys (Sys.openRepackFile path stat)

/-- Go on to the next file, which `next` opens.  If it does not share the object of the one before,
that object is closed. -/
def enterNext (curobj : Nat) (next : Op Listed Unit) : Op Listed Unit := do
  onSys (modifyStream fun stream =>
    { stream with curfile := stream.curfile + 1, fileno := stream.fileno + 1 })
  next.onFail (onSys (modifyStream fun stream =>
    { stream with curfile := stream.curfile - 1, fileno := stream.fileno - 1 }))
  let l ← Op.get
  if l.sys.stream.cur.ftag.objno ≠ curobj then onSys retireObject

/-- What `datastream_create` and `datastream_repack` do with a stream they are passed. -/
def nextFile (next : Op Listed Unit) : Op Listed Unit := do
  let l ← Op.get
  onSys (finfile.onFail freestream)
  onSys ((putftag l.sys.stream.curfile).onFail freestream)
  enterNext l.sys.stream.objno next

def datastreamCreate (path : List Char) (stat : FileStat) : Op Listed Unit := do
  let l ← Op.get
  Op.check (l.sys.stream.type = .create)
  nextFile (createNewFile path stat)

def datastreamRepack (path : List Char) (stat : FileStat) : Op Listed Unit := do
  let l ← Op.get
  Op.check (l.sys.stream.type = .repack)
  nextFile (openRepackFile path stat)

/-! ## Runs -/

def perform : Call → Op Listed Unit
  | .create path stat => datastreamCreate path stat
  | .repack path stat => datastreamRepack path stat
  | c => onSys (Sys.perform c)

def fresh (type : StreamType) (scheme : Scheme) (ctag streamid : List Char)
    (outcomes : List (Option Nat)) (reallocs : List Bool) : Listed :=
  { sys := Sys.fresh type scheme ctag streamid outcomes, filealloc := 0, reallocs := reallocs }

def genstream (path : List Char) (stat : FileStat) : Op Listed Unit := do
  let l ← Op.get
  (do
    let filealloc ← allocfiles 0 (maxFiles l.sys.stream.scheme)
    setFilealloc filealloc
    Op.check (filealloc ≠ 0)
    if l.sys.stream.type = StreamType.repack then openRepackFile path stat
    else createNewFile path stat).onFail (onSys freestream)

def Step (allowed : Listed → Call → Prop) (l l' : Listed) : Prop :=
  ∃ c, l.sys.live = true ∧ allowed l c ∧ l' = (perform c l).2

def Reached (type : StreamType) (scheme : Scheme) (ctag streamid : List Char)
    (allowed : Listed → Call → Prop) (l : Listed) : Prop :=
  ∃ outcomes reallocs path stat, Relation.ReflTransGen (Step allowed)
    (genstream path stat (fresh type scheme ctag streamid outcomes reallocs)).2 l

theorem Reached.invariant {type : StreamType} {scheme : Scheme} {ctag streamid : List Char}
    {allowed : Listed → Call → Prop} {P : Listed → Prop} {l : Listed}
    (hl : Reached type scheme ctag streamid allowed l) (hst : ∀ outcomes reallocs path stat,
      P (genstream path stat (fresh type scheme ctag streamid outcomes reallocs)).2)
    (hstep : ∀ l c, P l → l.sys.live = true → allowed l c → P (perform c l).2) : P l := by
  obtain ⟨outcomes, reallocs, path, stat, hrun⟩ := hl
  induction hrun with
  | refl => exact hst outcomes reallocs path stat
  | tail _ hlast ih =>
    obtain ⟨c, hlive, hc, rfl⟩ := hlast
    exact hstep _ c ih hlive hc

end Listed

end Marfs.Datastream
