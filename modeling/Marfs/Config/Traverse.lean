import Marfs.Config.Mount

/-!
# Path traversal

`config_traverse` parses a path and keeps track of the depth below the root of a namespace; at depth zero
it hands the rest of the path to `config_shiftns`, which moves the position between namespaces.  Pointers
into the path are texts: what is left of it.  What the code compares as pointers are texts left of one
path.
-/

namespace Marfs.Config

open Marfs.Path

/-- One pass through the body of a loop. -/
inductive LoopStep (σ ρ : Type) where
  | next (state : σ)
  | done (result : ρ)

/-- What `stat` and `readlink` tell of an entry. -/
inductive LinkStat where
  -- an error other than `ENOENT`
  | failed
  | other
  | link (content : List Char)
  deriving DecidableEq, Repr

/-- The operations of the MDALs: whether a name is rejected by the MDAL of a repo, and an entry below a
context. -/
structure Mdal where
  pathfilter : Nat → List Char → Bool
  stat : Option Ctxt → List Char → LinkStat

/-! ## Shifting the namespace -/

/-- What comes of `config_shiftns`: a position and what is left of the path, a failure, or a read through
a position that was abandoned. -/
inductive Shifted where
  | shifted (pos : MarfsPosition) (subpath : List Char)
  | failed
  | crashed
  deriving DecidableEq, Repr

def shiftStep (mdal : Mdal) (config : MarfsConfig) (pos : MarfsPosition) (pathelem : List Char) :
    LoopStep (MarfsPosition × List Char) Shifted :=
  if pathelem = [] then .done (.shifted pos pathelem)
  else if firstElem '/' pathelem = ['.', '.'] then
    match configEnterns config pos (config.deref pos.ns).pnamespace ['.', '.'] true true with
    | .entered pos => .next (pos, nextElem '/' pathelem)
    | .exits =>
      -- does the path come back into the mountpoint?
      match configValidatemnt config (some pos.ns) (nextElem '/' pathelem) with
      | none => .done .failed
      | some parsepath => .next (pos, skipSep '/' parsepath)
    | .failed => .done .crashed
  else if firstElem '/' pathelem = ['.'] then .next (pos, nextElem '/' pathelem)
  else
    match (config.deref pos.ns).subnodes.lookup (firstElem '/' pathelem) with
    | none =>
      if mdal.pathfilter (config.deref pos.ns).prepo (firstElem '/' pathelem) then .done .failed
      else .done (.shifted pos pathelem)
    | some subspace =>
      -- a path that ends with the subspace gets no context
      match configEnterns config pos (some subspace) (firstElem '/' pathelem) false
          (nextElem '/' pathelem ≠ []) with
      | .entered pos => .next (pos, nextElem '/' pathelem)
      | _ => .done .failed

def shiftLoop (mdal : Mdal) (config : MarfsConfig) : Nat → MarfsPosition → List Char → Shifted
  | 0, pos, pathelem => .shifted pos pathelem
  | fuel + 1, pos, pathelem =>
    match shiftStep mdal config pos pathelem with
    | .next (pos, pathelem) => shiftLoop mdal config fuel pos pathelem
    | .done result => result

def configShiftns (mdal : Mdal) (config : MarfsConfig) (pos : MarfsPosition) (subpath : List Char) :
    Shifted :=
  shiftLoop mdal config subpath.length pos subpath

/-! ## Traversal -/

def configEstablishposition (config : MarfsConfig) : MarfsPosition :=
  ⟨.table config.rootns, 0, some (.plain config.rootns [])⟩

/-- What comes of `config_traverse`. -/
inductive Traversed where
  | done (pos : MarfsPosition) (subpath : List Char) (depth : Nat)
  | failed
  | crashed
  deriving DecidableEq, Repr

/-- The variables of the loop in `config_traverse`. -/
structure TraverseState where
  pos : MarfsPosition
  relpath : List Char
  pathelem : List Char
  depth : Nat
  nonNS : Bool
  deriving DecidableEq, Repr

def intMax : Nat := 2147483647

def substituteLink (config : MarfsConfig) (state : TraverseState) (content : List Char) :
    LoopStep TraverseState Traversed :=
  if content = [] ∨ intMax < content.length then .done .failed
  else
    let parsepath := skipElem '/' state.pathelem
    if content.head? = some '/' then
      match configValidatemnt config none (content ++ parsepath) with
      | none => .done .failed
      | some parsestart =>
        let pos := { state.pos with depth := 0 }
        let pos :=
          if pos.ns ≠ .table config.rootns then
            { pos with ns := .table config.rootns, ctxt := some (.plain config.rootns []) }
          else pos
        .next ⟨pos, parsestart, parsestart, 0, false⟩
    else
      let prefixlen := state.relpath.length - state.pathelem.length
      let relpath := state.relpath.take prefixlen ++ (content ++ parsepath)
      .next { state with relpath := relpath, pathelem := content ++ parsepath, nonNS := false }

def enterElem (mdal : Mdal) (config : MarfsConfig) (linkchk : Nat) (state : TraverseState) :
    LoopStep TraverseState Traversed :=
  let subdir := .next
    { state with pathelem := nextElem '/' state.pathelem, depth := state.depth + 1, nonNS := false }
  let finalpathcomp := nextElem '/' state.pathelem = []
  if linkchk = 1 ∨ (linkchk > 1 ∧ ¬finalpathcomp) then
    let tgtlen := state.relpath.length - (skipElem '/' state.pathelem).length
    match mdal.stat state.pos.ctxt (state.relpath.take tgtlen) with
    | .failed => .done .failed
    | .link content => substituteLink config state content
    | .other => subdir
  else subdir

/-- What the loop makes of `config_shiftns`, if it moved on. -/
def shiftState (state : TraverseState) (pos : MarfsPosition) (shiftres : List Char) : TraverseState :=
  ⟨{ pos with depth := 0 }, shiftres, shiftres, state.depth, true⟩

def traverseStep (mdal : Mdal) (config : MarfsConfig) (linkchk : Nat) (state : TraverseState) :
    LoopStep TraverseState Traversed :=
  let pathelem := state.pathelem
  if pathelem = [] then .done (.done state.pos state.relpath state.depth)
  else if firstElem '/' pathelem = ['.', '.'] then
    if state.depth = 0 then
      match configShiftns mdal config state.pos pathelem with
      | .shifted pos parsepath =>
        if parsepath = pathelem then .done .failed else .next (shiftState state pos parsepath)
      | .failed => .done .failed
      | .crashed => .done .crashed
    else
      .next { state with pathelem := nextElem '/' pathelem, depth := state.depth - 1, nonNS := false }
  else if firstElem '/' pathelem = ['.'] then
    .next { state with pathelem := nextElem '/' pathelem, nonNS := false }
  else if state.depth = 0 ∧ state.nonNS = false then
    match configShiftns mdal config state.pos pathelem with
    | .shifted pos shiftres =>
      if shiftres ≠ pathelem then .next (shiftState state pos shiftres)
      else enterElem mdal config linkchk { state with pos := pos }
    | .failed => .done .failed
    | .crashed => .done .crashed
  else enterElem mdal config linkchk state

def traverseLoop (mdal : Mdal) (config : MarfsConfig) (linkchk : Nat) :
    Nat → TraverseState → Option Traversed
  | 0, _ => none
  | fuel + 1, state =>
    match traverseStep mdal config linkchk state with
    | .next state => traverseLoop mdal config linkchk fuel state
    | .done result => some result

def configTraverse (mdal : Mdal) (config : MarfsConfig) (fuel : Nat) (pos : MarfsPosition)
    (subpath : List Char) (linkchk : Nat) : Option Traversed :=
  if pos.ctxt = none then some .failed
  else if subpath.head? = some '/' then
    match configValidatemnt config none subpath with
    | none => some .failed
    | some parsepath =>
      let pos :=
        if pos.ns ≠ .table config.rootns ∨ pos.depth ≠ 0 then configEstablishposition config else pos
      if parsepath = [] then some (.done pos ['.'] 0)
      else traverseLoop mdal config linkchk fuel ⟨pos, parsepath, parsepath, pos.depth, false⟩
  else traverseLoop mdal config linkchk fuel ⟨pos, subpath, subpath, pos.depth, false⟩

end Marfs.Config
