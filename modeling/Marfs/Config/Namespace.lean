import Mathlib.Data.List.Basic
import Mathlib.Data.Nat.Bitwise

/-!
# Namespaces and positions

The namespaces of a config are numbered; a position is at one of them, or at a copy of a ghost that it
owns.  Subspace tables are lists, searched by name.  A context is what the MDAL has opened: a namespace
with a working directory, or the paths of a ghost copy and of its target.  Memory allocation and the
MDAL's own calls succeed.
-/

namespace Marfs.Config

/-! ## Namespaces -/

/-- `marfs_ns`; a reference to another namespace is its number. -/
structure MarfsNs where
  idstr : List Char
  fquota : Nat
  dquota : Nat
  iperms : Nat
  bperms : Nat
  prepo : Nat
  pnamespace : Option Nat
  subnodes : List (List Char × Nat)
  ghtarget : Option Nat
  ghsource : Option Nat
  deriving DecidableEq, Repr

/-- `marfs_config`, as far as namespaces go. -/
structure MarfsConfig where
  mountpoint : List Char
  rootns : Nat
  ns : Nat → MarfsNs

/-- `pos->ns`: a namespace of the config, or an allocated ghost copy. -/
inductive NsRef where
  | table (ns : Nat)
  | copy (ns : MarfsNs)
  deriving DecidableEq, Repr

/-- What a context is rooted in. -/
inductive Ctxt where
  | plain (ns : Nat) (dir : List (List Char))
  | split (ghostpath tgtpath : List Char)
  deriving DecidableEq, Repr

structure MarfsPosition where
  ns : NsRef
  depth : Nat
  ctxt : Option Ctxt
  deriving DecidableEq, Repr

/-- The namespace of a reference. -/
def MarfsConfig.deref (config : MarfsConfig) : NsRef → MarfsNs
  | .table ns => config.ns ns
  | .copy ns => ns

/-! ## ID strings -/

/-- `config_nsinfo`: the name of the repo, the path, and the return value.  It is looked for the
separator behind the first character only. -/
def configNsinfo (nsidstr : List Char) : Option (List Char × List Char × Int) :=
  match nsidstr with
  | [] => none
  | c :: rest =>
    let repo := rest.takeWhile (· ≠ '|')
    match rest.drop repo.length with
    | [] => none
    | _ :: path => some (c :: repo, path, if path.head? = some '/' then 0 else 1)

def nsPath (nsidstr : List Char) : Option (List Char × List Char) :=
  match configNsinfo nsidstr with
  | some (repo, path, 0) => some (repo, path)
  | _ => none

/-- Where the last run of separators in a path begins: the loop from index `i` on, in a run or not. -/
def prevElem : List Char → Nat → Bool → Option Nat → Option Nat
  | [], _, _, prev => prev
  | c :: path, i, inrun, prev =>
    if c = '/' then prevElem path (i + 1) true (if inrun then prev else some i)
    else prevElem path (i + 1) false prev

/-- The ID string of a ghost copy that ascends: the last component of its path goes away. -/
def ascendIdstr (idstr : List Char) : Option (List Char) := do
  let (repo, path) ← nsPath idstr
  let prev ← prevElem path 0 false none
  if prev = 0 then none
  else
    let idstr := repo ++ '|' :: path.take prev
    if idstr.length < 2 then none else some idstr

/-- The ID string of a ghost copy that descends: its path gets another component. -/
def descendIdstr (idstr relpath : List Char) : Option (List Char) := do
  let (repo, path) ← nsPath idstr
  let idstr := repo ++ '|' :: (path ++ '/' :: relpath)
  if idstr.length < 3 then none else some idstr

/-! ## Contexts -/

def configFortifyposition (config : MarfsConfig) (pos : MarfsPosition) : Option MarfsPosition :=
  match pos.ctxt with
  | some _ => some pos
  | none =>
    match pos.ns with
    | .copy ns => do
      let (_, ghostpath) ← nsPath ns.idstr
      let ghtarget ← ns.ghtarget
      let (_, tgtpath) ← nsPath (config.ns ghtarget).idstr
      some { pos with ctxt := some (.split ghostpath tgtpath) }
    | .table ns => do
      let _ ← nsPath (config.ns ns).idstr
      some { pos with ctxt := some (.plain ns []) }

/-- The MDAL's `setnamespace`, with a path relative to the namespace of the context. -/
def MarfsConfig.setnamespace (config : MarfsConfig) (ctxt : Option Ctxt) (relpath : List Char) :
    Option Ctxt :=
  match ctxt with
  | some (.plain ns _) =>
    if relpath = ['.', '.'] then (config.ns ns).pnamespace.map fun parent => .plain parent []
    else ((config.ns ns).subnodes.lookup relpath).map fun subspace => .plain subspace []
  | _ => none

/-! ## Moving between namespaces -/

def lesserQuota (quota tgtquota : Nat) : Nat :=
  if tgtquota ≠ 0 ∧ (tgtquota < quota ∨ quota = 0) then tgtquota else quota

def MarfsConfig.nonGhosts (config : MarfsConfig) (target : Nat) : List (List Char × Nat) :=
  (config.ns target).subnodes.filter fun node => (config.ns node.2).ghtarget.isNone

/-- What comes of `config_enterns`: a new position, an exit from the mountpoint, or a failure that
abandons the position. -/
inductive Entered where
  | entered (pos : MarfsPosition)
  | exits
  | failed
  deriving DecidableEq, Repr

def refresh (config : MarfsConfig) (pos : MarfsPosition) (updatectxt : Bool) : Entered :=
  let pos := { pos with ctxt := none }
  if updatectxt then
    match configFortifyposition config pos with
    | some pos => .entered pos
    | none => .failed
  else .entered pos

def enterStandard (config : MarfsConfig) (pos : MarfsPosition) (curns : MarfsNs) (nextns : Nat)
    (relpath : List Char) (updatectxt : Bool) : Entered :=
  let pos := { pos with ns := .table nextns }
  if curns.prepo = (config.ns nextns).prepo ∧ updatectxt then
    match config.setnamespace pos.ctxt relpath with
    | some ctxt => .entered { pos with ctxt := some ctxt }
    | none => .failed
  else refresh config pos updatectxt

def enterGhost (config : MarfsConfig) (pos : MarfsPosition) (nextns ghtarget : Nat)
    (ascending updatectxt : Bool) : Entered :=
  let ghost := config.ns nextns
  let target := config.ns ghtarget
  if ascending then .failed
  else
    let tgtns : MarfsNs :=
      { ghsource := some nextns
        ghtarget := some ghtarget
        pnamespace := target.pnamespace
        prepo := target.prepo
        idstr := ghost.idstr
        fquota := lesserQuota ghost.fquota target.fquota
        dquota := lesserQuota ghost.dquota target.dquota
        iperms := ghost.iperms &&& target.iperms
        bperms := ghost.bperms &&& target.bperms
        subnodes := config.nonGhosts ghtarget }
    refresh config { pos with ns := .copy tgtns } updatectxt

def moveGhost (config : MarfsConfig) (pos : MarfsPosition) (curns : MarfsNs) (ghsource nextns : Nat)
    (relpath : List Char) (ascending updatectxt : Bool) : Entered :=
  let ghost := config.ns ghsource
  let target := config.ns nextns
  if target.ghtarget.isSome then .failed
  else
    match if ascending then ascendIdstr curns.idstr else descendIdstr curns.idstr relpath with
    | none => .failed
    | some idstr =>
      let curns :=
        { curns with
          ghtarget := some nextns
          pnamespace := target.pnamespace
          prepo := target.prepo
          idstr := idstr
          fquota := lesserQuota ghost.fquota target.fquota
          dquota := lesserQuota ghost.dquota target.dquota
          iperms := ghost.iperms &&& target.iperms
          bperms := ghost.bperms &&& target.bperms
          subnodes := config.nonGhosts nextns }
      refresh config { pos with ns := .copy curns } updatectxt

def configEnterns (config : MarfsConfig) (pos : MarfsPosition) (nextns : Option Nat)
    (relpath : List Char) (ascending updatectxt : Bool) : Entered :=
  let curns := config.deref pos.ns
  match curns.ghsource with
  | none =>
    match nextns with
    | none => .exits
    | some nextns =>
      match (config.ns nextns).ghtarget with
      | none => enterStandard config pos curns nextns relpath updatectxt
      | some ghtarget => enterGhost config pos nextns ghtarget ascending updatectxt
  | some ghsource =>
    -- the parent of the ghost's own target is where the ghost ends
    if ascending ∧ nextns = (config.ns ghsource).ghtarget.bind fun ghtarget =>
        (config.ns ghtarget).pnamespace then
      match (config.ns ghsource).pnamespace with
      | some parent => refresh config { pos with ns := .table parent } updatectxt
      | none => .failed
    else
      match nextns with
      | none => .failed
      | some nextns => moveGhost config pos curns ghsource nextns relpath ascending updatectxt

end Marfs.Config
