import Marfs.Api.Handles

/-!
# Sessions

Contexts, file handles and directory handles are numbered as they are made.  A run is a sequence of calls
of entry points, on any of them, in which every call returns; the history keeps what was issued.  The
entry points that read the entries of a directory change none of these, nor any file.
-/

namespace Marfs.Api

open Marfs.Config

/-- The contexts and handles, `none` once they are freed, and all calls so far. -/
structure Session where
  ctxts : List (Option MarfsCtxt)
  fhandles : List (Option MarfsFhandle)
  dhandles : List (Option MarfsDhandle)
  calls : List Call

/-- A call of an entry point. -/
inductive Action where
  | init (itype : Interface)
  | term (c : Nat)
  | access (c : Nat) (path : List Char) (nofollow : Bool)
  | stat (c : Nat) (path : List Char) (nofollow : Bool)
  | chmod (c : Nat) (path : List Char) (nofollow : Bool)
  | chown (c : Nat) (path : List Char) (nofollow : Bool)
  | rename (c : Nat) (frompath topath : List Char)
  | symlink (c : Nat) (linkname : List Char)
  | readlink (c : Nat) (path : List Char)
  | unlink (c : Nat) (path : List Char)
  | link (c : Nat) (oldpath newpath : List Char) (nofollow : Bool)
  | utimens (c : Nat) (path : List Char) (nofollow : Bool)
  | mkdir (c : Nat) (path : List Char)
  | rmdir (c : Nat) (path : List Char)
  | statvfs (c : Nat) (path : List Char)
  | fstat (f : Nat)
  | fgetxattr (f : Nat)
  | flistxattr (f : Nat)
  | futimens (f : Nat)
  | fsetxattr (f : Nat)
  | fremovexattr (f : Nat)
  | opendir (c : Nat) (path : List Char) (opened : Bool)
  | closedir (d : Nat)
  | chdir (c d : Nat) (moved : Option Ctxt)
  | dsetxattr (d : Nat)
  | dremovexattr (d : Nat)
  | dgetxattr (d : Nat)
  | dlistxattr (d : Nat)
  | creat (c : Nat) (stream : Option Nat) (path : List Char) (inodeusage datausage : Option Nat)
    (closed : Bool) (streamed : Streamed)
  | open (c : Nat) (stream : Option Nat) (path : List Char) (flags : Nat)
    (closed released opened : Bool) (streamed : Streamed)
  | close (f : Nat)
  | release (f : Nat)
  | flush (f : Nat)
  | setrecoverypath (c f : Nat) (recovpath : List Char)
  | read (f : Nat) (lost : Bool)
  | write (f : Nat) (lost : Bool)
  | seek (f : Nat) (lost : Bool)
  | readAtOffset (f : Nat) (seeklost sought readlost : Bool)
  | chunkbounds (f : Nat)
  | ftruncate (f : Nat)
  | extend (f : Nat) (lost : Bool)

namespace Session

/-- Nothing is initialized yet. -/
def empty : Session := ⟨[], [], [], []⟩

/-- A context. -/
def ctxt (s : Session) (c : Nat) : Option MarfsCtxt := (s.ctxts[c]?).join

/-- A file handle. -/
def fhandle (s : Session) (f : Nat) : Option MarfsFhandle := (s.fhandles[f]?).join

/-- A directory handle. -/
def dhandle (s : Session) (d : Nat) : Option MarfsDhandle := (s.dhandles[d]?).join

def log (s : Session) (outcome : Outcome) : Session := { s with calls := s.calls ++ outcome.calls }

/-- A file handle gets another value, or is freed. -/
def setFhandle (s : Session) (f : Nat) (fh : Option MarfsFhandle) : Session :=
  { s with fhandles := s.fhandles.set f fh }

/-- The state after `marfs_creat` or `marfs_open`. -/
def opened (s : Session) (stream : Option Nat) (opened : Opened) : Session :=
  match stream with
  | some f => (s.log opened.outcome).setFhandle f opened.handle
  | none =>
    let s := s.log opened.outcome
    { s with fhandles := s.fhandles ++ [opened.handle] }

def stream (s : Session) : Option Nat → Option (Option MarfsFhandle)
  | none => some none
  | some f => (s.fhandle f).map some

section Step

variable (mdal : Mdal) (config : MarfsConfig) (directread : Nat → Bool) (fuel : Nat)

def onCtxt (s : Session) (c : Nat) (entry : MarfsCtxt → Option Outcome) : Option Session := do
  let ctxt ← s.ctxt c
  let outcome ← entry ctxt
  some (s.log outcome)

/-- An entry point on a file handle that leaves it alone. -/
def onFhandle (s : Session) (f : Nat) (entry : MarfsFhandle → Outcome) : Option Session :=
  (s.fhandle f).map fun fh => s.log (entry fh)

def onData (s : Session) (f : Nat) (entry : MarfsFhandle → Handled) : Option Session :=
  (s.fhandle f).map fun fh => (s.log (entry fh).outcome).setFhandle f (some (entry fh).handle)

/-- An entry point on a directory handle that leaves it alone. -/
def onDhandle (s : Session) (d : Nat) (entry : MarfsDhandle → Outcome) : Option Session :=
  (s.dhandle d).map fun dh => s.log (entry dh)

/-- One call; `none` where it does not return, or there is nothing to call it with. -/
def step (s : Session) : Action → Option Session
  | .init itype => some { s with ctxts := s.ctxts ++ [some ⟨itype, configEstablishposition config⟩] }
  | .term c => (s.ctxt c).map fun _ => { s with ctxts := s.ctxts.set c none }
  | .access c path nofollow => s.onCtxt c fun ctxt => marfsAccess mdal config fuel ctxt path nofollow
  | .stat c path nofollow => s.onCtxt c fun ctxt => marfsStat mdal config fuel ctxt path nofollow
  | .chmod c path nofollow => s.onCtxt c fun ctxt => marfsChmod mdal config fuel ctxt path nofollow
  | .chown c path nofollow => s.onCtxt c fun ctxt => marfsChown mdal config fuel ctxt path nofollow
  | .rename c frompath topath =>
    s.onCtxt c fun ctxt => marfsRename mdal config fuel ctxt frompath topath
  | .symlink c linkname => s.onCtxt c fun ctxt => marfsSymlink mdal config fuel ctxt linkname
  | .readlink c path => s.onCtxt c fun ctxt => marfsReadlink mdal config fuel ctxt path
  | .unlink c path => s.onCtxt c fun ctxt => marfsUnlink mdal config fuel ctxt path
  | .link c oldpath newpath nofollow =>
    s.onCtxt c fun ctxt => marfsLink mdal config fuel ctxt oldpath newpath nofollow
  | .utimens c path nofollow => s.onCtxt c fun ctxt => marfsUtimens mdal config fuel ctxt path nofollow
  | .mkdir c path => s.onCtxt c fun ctxt => marfsMkdir mdal config fuel ctxt path
  | .rmdir c path => s.onCtxt c fun ctxt => marfsRmdir mdal config fuel ctxt path
  | .statvfs c path => s.onCtxt c fun ctxt => marfsStatvfs mdal config fuel ctxt path
  | .fstat f => s.onFhandle f marfsFstat
  | .fgetxattr f => s.onFhandle f marfsFgetxattr
  | .flistxattr f => s.onFhandle f marfsFlistxattr
  | .futimens f => s.onFhandle f (marfsFutimens config directread)
  | .fsetxattr f => s.onFhandle f (marfsFsetxattr config)
  | .fremovexattr f => s.onFhandle f (marfsFremovexattr config)
  | .opendir c path opened => do
    let ctxt ← s.ctxt c
    let (outcome, dh) ← marfsOpendir mdal config fuel ctxt path opened
    some { s.log outcome with dhandles := s.dhandles ++ [dh] }
  | .closedir d =>
    (s.dhandle d).map fun dh => { s.log (marfsClosedir dh) with dhandles := s.dhandles.set d none }
  | .chdir c d moved => do
    let ctxt ← s.ctxt c
    let dh ← s.dhandle d
    let (outcome, ctxt) := marfsChdir ctxt dh moved
    some { s.log outcome with
      ctxts := s.ctxts.set c (some ctxt)
      dhandles := if moved.isSome then s.dhandles.set d none else s.dhandles }
  | .dsetxattr d => s.onDhandle d (marfsDsetxattr config)
  | .dremovexattr d => s.onDhandle d (marfsDremovexattr config)
  | .dgetxattr d => s.onDhandle d marfsDgetxattr
  | .dlistxattr d => s.onDhandle d marfsDlistxattr
  | .creat c f path inodeusage datausage closed streamed => do
    let ctxt ← s.ctxt c
    let stream ← s.stream f
    let opened ← marfsCreat mdal config fuel ctxt stream path inodeusage datausage closed streamed
    some (s.opened f opened)
  | .open c f path flags closed released opened streamed => do
    let ctxt ← s.ctxt c
    let stream ← s.stream f
    let opened ← marfsOpen mdal config fuel ctxt stream path flags closed released opened streamed
    some (s.opened f opened)
  | .close f => (s.fhandle f).map fun fh => (s.log (marfsClose fh)).setFhandle f none
  | .release f => (s.fhandle f).map fun fh => (s.log (marfsRelease fh)).setFhandle f none
  | .flush f => s.onData f marfsFlush
  | .setrecoverypath c f recovpath => do
    let ctxt ← s.ctxt c
    let fh ← s.fhandle f
    let outcome ← marfsSetrecoverypath mdal config fuel ctxt fh recovpath
    some (s.log outcome)
  | .read f lost => s.onData f fun fh => marfsRead config directread fh lost
  | .write f lost => s.onData f fun fh => marfsWrite config fh lost
  | .seek f lost => s.onData f fun fh => marfsSeek config directread fh lost
  | .readAtOffset f seeklost sought readlost =>
    s.onData f fun fh => marfsReadAtOffset config directread fh seeklost sought readlost
  | .chunkbounds f => s.onFhandle f marfsChunkbounds
  | .ftruncate f => s.onData f (marfsFtruncate config directread)
  | .extend f lost => s.onData f fun fh => marfsExtend fh lost

end Step

end Session

end Marfs.Api
