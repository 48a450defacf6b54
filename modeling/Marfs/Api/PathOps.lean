import Marfs.Api.Permission

/-!
# Path operations

An entry point that is given a path shifts a copy of the context's position to it, checks the permissions
of the namespace it got to, and calls the MDAL there.  Links can keep a traversal going for ever, so an
entry point may not return.  The arguments of a call other than its positions, and the values read, are
left out.
-/

namespace Marfs.Api

open Marfs.Config

/-- `marfs_ctxt`; its config is that of the system. -/
structure MarfsCtxt where
  itype : Interface
  pos : MarfsPosition
  deriving DecidableEq, Repr

/-- What comes of `pathshift`. -/
inductive Shift where
  | failed
  | found (pos : MarfsPosition) (subpath : List Char) (depth : Nat)
  deriving DecidableEq, Repr

section PathOps

variable (mdal : Mdal) (config : MarfsConfig) (fuel : Nat) (ctxt : MarfsCtxt)

def pathshift (tgtpath : List Char) (linkchk : Nat) : Option Shift :=
  match configTraverse mdal config fuel ctxt.pos tgtpath
      (if ctxt.itype = .interactive then 1 + linkchk else 0) with
  | none => none
  | some .crashed => none
  | some .failed => some .failed
  | some (.done pos subpath depth) =>
    if depth = 0 ∧ pos.ctxt = none then
      -- the namespace itself, by its full path
      match nsPath (config.deref pos.ns).idstr with
      | none => some .failed
      | some (_, nspath) => some (.found pos nspath depth)
    else some (.found pos subpath depth)

def nofollowLinkchk (nofollow : Bool) : Nat := if nofollow then 1 else 0

def checked (pos : MarfsPosition) (perm : Nat) (op : Op) : Outcome :=
  if denies ctxt.itype (config.deref pos.ns) perm then .refuse .eperm
  else .issue op ctxt.itype [pos.ns]

/-- An operation on one path.  `atroot` is the error for a namespace itself, `nsop` the call for one
without a context. -/
def pathOp (path : List Char) (linkchk : Nat) (atroot : Option Errno) (perm : Nat) (nsop op : Op) :
    Option Outcome :=
  match pathshift mdal config fuel ctxt path linkchk with
  | none => none
  | some .failed => some (.refuse .left)
  | some (.found pos _ depth) =>
    match if depth = 0 then atroot else none with
    | some errno => some (.refuse errno)
    | none => some (checked config ctxt pos perm (if depth = 0 ∧ pos.ctxt = none then nsop else op))

def marfsAccess (path : List Char) (nofollow : Bool) : Option Outcome :=
  pathOp mdal config fuel ctxt path (nofollowLinkchk nofollow) none nsReadmeta .accessnamespace .access

def marfsStat (path : List Char) (nofollow : Bool) : Option Outcome :=
  pathOp mdal config fuel ctxt path (nofollowLinkchk nofollow) none nsReadmeta .statnamespace .stat

def marfsChmod (path : List Char) (nofollow : Bool) : Option Outcome :=
  pathOp mdal config fuel ctxt path (nofollowLinkchk nofollow) none nsWritemeta .chmodnamespace .chmod

def marfsChown (path : List Char) (nofollow : Bool) : Option Outcome :=
  pathOp mdal config fuel ctxt path (nofollowLinkchk nofollow) none nsWritemeta .chownnamespace .chown

def marfsSymlink (linkname : List Char) : Option Outcome :=
  pathOp mdal config fuel ctxt linkname 1 (some .eexist) nsWritemeta .symlink .symlink

def marfsReadlink (path : List Char) : Option Outcome :=
  pathOp mdal config fuel ctxt path 1 (some .einval) nsReadmeta .readlink .readlink

def marfsUnlink (path : List Char) : Option Outcome :=
  pathOp mdal config fuel ctxt path 1 (some .eperm) nsWritemeta .unlink .unlink

def marfsUtimens (path : List Char) (nofollow : Bool) : Option Outcome :=
  pathOp mdal config fuel ctxt path (nofollowLinkchk nofollow) (some .eexist) nsWritemeta
    .utimens .utimens

def marfsMkdir (path : List Char) : Option Outcome :=
  pathOp mdal config fuel ctxt path 1 (some .eexist) nsWritemeta .mkdir .mkdir

def marfsRmdir (path : List Char) : Option Outcome :=
  match pathshift mdal config fuel ctxt path 1 with
  | none => none
  | some .failed => some (.refuse .left)
  | some (.found pos _ depth) =>
    some (checked config ctxt pos nsWritemeta (if depth = 0 then .destroynamespace else .rmdir))

def marfsStatvfs (path : List Char) : Option Outcome :=
  match pathshift mdal config fuel ctxt path 1 with
  | none => none
  | some .failed => some (.refuse .left)
  | some (.found pos _ depth) =>
    match if depth = 0 ∧ pos.ctxt = none then configFortifyposition config pos else some pos with
    | none => some (.refuse .left)
    | some pos => some (checked config ctxt pos nsReadmeta .statvfs)

def notGhostOf (ns tgtns : MarfsNs) : Bool :=
  match ns.ghtarget with
  | none => true
  | some ghtarget => tgtns.ghtarget.isSome || (config.ns ghtarget).idstr ≠ tgtns.idstr

def crossNs (ns ns' : MarfsNs) : Bool :=
  ns.idstr ≠ ns'.idstr && notGhostOf config ns ns' && notGhostOf config ns' ns

/-- An operation on two paths; `atroot` is the error where the second one is a namespace itself. -/
def pairOp (oldpath newpath : List Char) (linkchk : Nat) (atroot : Errno) (op : Op) :
    Option Outcome :=
  match pathshift mdal config fuel ctxt oldpath linkchk with
  | none => none
  | some .failed => some (.refuse .left)
  | some (.found oldpos _ olddepth) =>
    if olddepth = 0 then some (.refuse .eperm)
    else
      match pathshift mdal config fuel ctxt newpath linkchk with
      | none => none
      | some .failed => some (.refuse .left)
      | some (.found newpos _ newdepth) =>
        if newdepth = 0 then some (.refuse atroot)
        else if crossNs config (config.deref oldpos.ns) (config.deref newpos.ns) then
          some (.refuse .eperm)
        -- only the permissions of the second position are checked
        else if denies ctxt.itype (config.deref newpos.ns) nsWritemeta then some (.refuse .eperm)
        else some (.issue op ctxt.itype [oldpos.ns, newpos.ns])

def marfsRename (frompath topath : List Char) : Option Outcome :=
  pairOp mdal config fuel ctxt frompath topath 1 .eperm .rename

def marfsLink (oldpath newpath : List Char) (nofollow : Bool) : Option Outcome :=
  pairOp mdal config fuel ctxt oldpath newpath (nofollowLinkchk nofollow) .eexist .link

end PathOps

end Marfs.Api
