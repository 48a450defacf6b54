import Marfs.Config.Namespace
import Marfs.Machine.Cursor

/-!
# Directory handles

`marfs_readdir`, `marfs_telldir`, `marfs_seekdir` and `marfs_rewinddir` on one open handle.  A handle at the
root of a namespace lists the subspaces first, by their index, and then what the MDAL lists; a bit of the
location tells in which of the two it is.  The calls of the MDAL are parameters, on a state of its own
handle.  `long` is 64 bits wide.
-/

namespace Marfs.Dirhandle

open Marfs.Config Marfs.Cursor

/-! ## The MDAL -/

/-- `errno`, as far as a handle tells its values apart. -/
inductive Errno where
  | unset
  | enoent
  | einval
  | emsgsize
  | enametoolong
  | edom
  | other (code : Nat)
  deriving DecidableEq, Repr

/-- What a handle uses of the MDAL of its repo, and `statnamespace` of the MDAL of any repo.  Every call may
change `errno`; `σ` is the state of a directory handle. -/
structure Mdal (σ : Type) where
  pathfilter : List Char → Bool
  readdir : σ → Errno → Option (List Char) × Errno × σ
  telldir : σ → Errno → BitVec 64 × Errno × σ
  seekdir : σ → BitVec 64 → Errno → Int × Errno × σ
  rewinddir : σ → Errno → Int × Errno × σ
  statnamespace : Nat → List Char → Errno → Int × Errno

/-! ## Handles -/

def nsOffsetMask : BitVec 64 := 1#64 <<< 61

/-- The directory a handle is open on.  The subspaces are an array of `HASH_NODE`s of 24 bytes each that lies
in memory, and the config has given every one of them a path. -/
structure Dir (config : MarfsConfig) where
  ns : NsRef
  depth : Nat
  fits : 24 * (config.deref ns).subnodes.length < 2 ^ 64
  linked : ∀ node ∈ (config.deref ns).subnodes,
    ∃ repo path, configNsinfo (config.ns node.2).idstr = some (repo, path, 0)

structure Dhandle (config : MarfsConfig) (σ : Type) extends Dir config where
  metahandle : σ
  location : BitVec 64
  subspcnamealloc : Nat

variable {config : MarfsConfig} {σ : Type}

def Dir.subnodes (dir : Dir config) : List (List Char × Nat) := (config.deref dir.ns).subnodes

def Dir.opened (dir : Dir config) (metahandle : σ) : Dhandle config σ :=
  { toDir := dir, metahandle := metahandle, location := 0, subspcnamealloc := 256 }

/-- The handle is at the root of a namespace with subspaces. -/
def Dir.Split (dir : Dir config) : Prop := dir.depth = 0 ∧ dir.subnodes.length ≠ 0

instance (dir : Dir config) : Decidable dir.Split := inferInstanceAs (Decidable (_ ∧ _))

/-! ## Reading -/

/-- What the loop over the subspaces comes to: a failure, an entry, or nothing that is left of them. -/
inductive Listed where
  | failed (errno : Errno) (location : BitVec 64)
  | entry (name : List Char) (location : BitVec 64)
  | passed (errno : Errno)
  deriving DecidableEq, Repr

def listSubspaces (config : MarfsConfig) (mdal : Mdal σ) (subspcnamealloc subnodecount : Nat) :
    List (List Char × Nat) → BitVec 64 → Errno → Listed
  | [], _, errno => .passed errno
  | (name, tgtsubspace) :: nodes, location, errno =>
    match configNsinfo (config.ns tgtsubspace).idstr with
    | none => .failed .einval location
    | some (_, subspacepath, res) =>
      if res ≠ 0 then .failed errno location
      else
        let (stnsres, errno) := mdal.statnamespace (config.ns tgtsubspace).prepo subspacepath errno
        if stnsres ≠ 0 ∧ errno ≠ .enoent then .failed errno location
        else if stnsres = 0 then
          if name.length ≥ subspcnamealloc then .failed .enametoolong location
          else
            let location := location + 1
            if location &&& nsOffsetMask ≠ 0 then
              -- the index has run into the bit
              if location ≠ BitVec.ofNat 64 subnodecount then .entry name (nsOffsetMask ||| 1)
              else .entry name nsOffsetMask
            else .entry name location
        else listSubspaces config mdal subspcnamealloc subnodecount nodes (location + 1) errno

/-- The loop of `marfs_readdir` over the calls of the MDAL's `readdir`; `filter` says whether entries are
filtered.  It may not end. -/
def readEntry (mdal : Mdal σ) (filter : Bool) : Nat → σ → Errno →
    Option (Option (List Char) × Errno × σ)
  | 0, _, _ => none
  | fuel + 1, metahandle, errno =>
    match mdal.readdir metahandle errno with
    | (some name, errno, metahandle) =>
      if filter && mdal.pathfilter name then readEntry mdal filter fuel metahandle errno
      else some (some name, errno, metahandle)
    | (none, errno, metahandle) => some (none, errno, metahandle)

def readBehind (mdal : Mdal σ) (fuel : Nat) (dh : Dhandle config σ) (cachederrno errno : Errno) :
    Option (Option (List Char) × Errno × Dhandle config σ) :=
  if dh.location = nsOffsetMask ||| 1 then some (none, .emsgsize, dh)
  else
    match readEntry mdal (dh.depth = 0) fuel dh.metahandle errno with
    | none => none
    | some (some name, _, metahandle) =>
      some (some name, cachederrno, { dh with metahandle := metahandle })
    | some (none, errno, metahandle) => some (none, errno, { dh with metahandle := metahandle })

def marfsReaddir (mdal : Mdal σ) (fuel : Nat) (dh : Dhandle config σ) (cachederrno : Errno) :
    Option (Option (List Char) × Errno × Dhandle config σ) :=
  if dh.Split ∧ dh.location &&& nsOffsetMask = 0 then
    match listSubspaces config mdal dh.subspcnamealloc dh.subnodes.length
      (dh.subnodes.drop dh.location.toNat) dh.location .unset with
    | .failed errno location => some (none, errno, { dh with location := location })
    | .entry name location => some (some name, cachederrno, { dh with location := location })
    | .passed errno => readBehind mdal fuel { dh with location := nsOffsetMask } cachederrno errno
  else readBehind mdal fuel dh cachederrno .unset

/-! ## The location -/

def marfsTelldir (mdal : Mdal σ) (dh : Dhandle config σ) (errno : Errno) :
    BitVec 64 × Errno × Dhandle config σ :=
  if dh.Split ∧ dh.location = nsOffsetMask ||| 1 then (-1, .emsgsize, dh)
  else if ¬ dh.Split ∨ dh.location &&& nsOffsetMask ≠ 0 then
    let (retval, errno, metahandle) := mdal.telldir dh.metahandle errno
    let dh := { dh with metahandle := metahandle }
    if dh.Split then
      if retval &&& nsOffsetMask ≠ 0 then (-1, .edom, dh)
      else (retval ||| nsOffsetMask, errno, dh)
    else (retval, errno, dh)
  else (dh.location, errno, dh)

def marfsSeekdir (mdal : Mdal σ) (dh : Dhandle config σ) (loc : BitVec 64) (errno : Errno) :
    Int × Errno × Dhandle config σ :=
  let origloc := dh.location
  if ¬ dh.Split ∨ loc &&& nsOffsetMask ≠ 0 then
    let tgt := if dh.Split then loc &&& ~~~nsOffsetMask else loc
    let location := if dh.Split then nsOffsetMask else origloc
    let (retval, errno, metahandle) := mdal.seekdir dh.metahandle tgt errno
    let location := if retval ≠ -1 then location else origloc
    (retval, errno, { dh with metahandle := metahandle, location := location })
  else if origloc &&& nsOffsetMask ≠ 0 then
    let (retval, errno, metahandle) := mdal.rewinddir dh.metahandle errno
    let location := if retval ≠ -1 then loc else origloc
    (retval, errno, { dh with metahandle := metahandle, location := location })
  else (0, errno, { dh with location := loc })

def marfsRewinddir (mdal : Mdal σ) (dh : Dhandle config σ) (errno : Errno) :
    Int × Errno × Dhandle config σ :=
  if ¬ dh.Split ∨ dh.location &&& nsOffsetMask ≠ 0 then
    let (retval, errno, metahandle) := mdal.rewinddir dh.metahandle errno
    let location := if retval ≠ -1 then 0 else dh.location
    (retval, errno, { dh with metahandle := metahandle, location := location })
  else (0, errno, { dh with location := 0 })

/-! ## Runs -/

/-- What goes wrong: a call fails with `errno`, or does not return. -/
inductive Fault where
  | errno (errno : Errno)
  | hung
  deriving DecidableEq, Repr

def dirStep (mdal : Mdal σ) (fuel : Nat) (state : Dhandle config σ × Errno) :
    Call (BitVec 64) → Reply (List Char) (BitVec 64) Fault × Dhandle config σ × Errno
  | .read =>
    match marfsReaddir mdal fuel state.1 state.2 with
    | none => (.failed .hung, state)
    | some (some name, errno, dh) => (.entry name, dh, errno)
    | some (none, .unset, dh) => (.ended, dh, .unset)
    | some (none, errno, dh) => (.failed (.errno errno), dh, errno)
  | .tell =>
    let (retval, errno, dh) := marfsTelldir mdal state.1 state.2
    (.told retval, dh, errno)
  | .seek loc =>
    let (retval, errno, dh) := marfsSeekdir mdal state.1 loc state.2
    (if retval = 0 then .done else .failed (.errno errno), dh, errno)
  | .rewind =>
    let (retval, errno, dh) := marfsRewinddir mdal state.1 state.2
    (if retval = 0 then .done else .failed (.errno errno), dh, errno)

end Marfs.Dirhandle
