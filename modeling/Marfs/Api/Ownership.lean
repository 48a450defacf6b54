import Marfs.Api.Handles
import Marfs.Machine.Ledger

/-!
# Who owns a namespace reference

`marfs_creat`, `marfs_open`, `marfs_close` and `marfs_release` once more, with what they do to the reference
that a handle holds to its namespace.  `config_duplicatensref` makes a copy of a namespace that is itself a
copy of a ghost, and `config_destroynsref` destroys it; a ledger keeps count of the copies that these
functions make.  A datastream and a meta handle are known by a number.  What the calls come to that the
functions issue is given with their other arguments.
-/

namespace Marfs.Ownership

open Marfs.Api Marfs.Config Marfs.Machine

/-! ## References -/

/-- What `config_duplicatensref` returns: the reference it was given, or a copy it has allocated. -/
inductive NsPtr where
  | shared (ref : NsRef)
  | copy (id : Nat) (ns : MarfsNs)
  deriving DecidableEq, Repr

def configDuplicatensref (config : MarfsConfig) (ns : NsRef) (allocated : Bool) (ledger : Ledger) :
    Option NsPtr × Ledger :=
  if (config.deref ns).ghsource = none then (some (.shared ns), ledger)
  else if allocated then (some (.copy ledger.made (config.deref ns)), ledger.make)
  else (none, ledger)

def configDestroynsref (ns : Option NsPtr) (ledger : Ledger) : Ledger :=
  match ns with
  | some (.copy id _) => ledger.destroy id
  | _ => ledger

/-! ## Handles -/

/-- `marfs_fhandle_struct`; `dataremaining` is used nowhere. -/
structure Fhandle where
  locked : Bool
  flags : Nat
  metahandle : Option Nat
  datastream : Option Nat
  ns : Option NsPtr
  itype : Interface
  deriving DecidableEq, Repr

def newMarfsFhandle : Fhandle :=
  { locked := false, flags := 0, metahandle := none, datastream := none, ns := none, itype := .interactive }

/-- What comes of `datastream_create` or `datastream_open`: it succeeds, and the stream's current file has a
meta handle; or it fails, with the former stream lost or not, and may hand out a meta handle. -/
inductive Streamed where
  | opened (datastream metahandle : Nat)
  | failed (lost : Bool) (phandle : Option Nat)
  deriving DecidableEq, Repr

/-- What the calls come to that an entry point issues: `pathshift`, the usage of the namespace, the
allocation of a handle, its lock, the MDAL's `close`, the allocations of `config_duplicatensref`, the
datastream, its release or close, and the MDAL's `open`. -/
structure Answers where
  shift : Shift
  inodeusage : Option Nat
  datausage : Option Nat
  allocated : Bool
  lock : Bool
  closed : Bool
  duplicated : Bool
  streamed : Streamed
  released : Bool
  opened : Option Nat
  deriving DecidableEq, Repr

/-- The one handle, if it exists, and the copies. -/
structure State where
  stream : Option Fhandle
  ledger : Ledger
  deriving DecidableEq, Repr

def State.refuse (s : State) (errno : Errno) : Option (Reply × State) := some (.refused errno, s)

/-- What is left of an existing handle once it may be used for another file: a meta-only reference is
closed, and the lock is held.  Otherwise the failure and the handle, unlocked again.  There is no return
from a lock that is held. -/
def prepare (stream : Fhandle) (answers : Answers) : Option (Except (Errno × Fhandle) Fhandle) :=
  if stream.locked then none
  else if ¬ answers.lock then some (.error (.left, stream))
  else if stream.datastream = none ∧ stream.metahandle = none then some (.error (.einval, stream))
  else if stream.datastream = none then
    if ¬ answers.closed then some (.error (.ebadfd, { stream with metahandle := none }))
    else some (.ok { stream with locked := true, metahandle := none })
  else some (.ok { stream with locked := true })

/-- The state of the argument `stream` is checked: the handle to use, and whether it is a new one.
`marfs_open` locks a new handle as well (`locknew`). -/
def takeHandle (answers : Answers) (locknew : Bool) (s : State) :
    Option (Except (Errno × State) (Bool × Fhandle)) :=
  match s.stream with
  | none =>
    if ¬ answers.allocated ∨ (locknew ∧ ¬ answers.lock) then some (.error (.left, s))
    else some (.ok (true, newMarfsFhandle))
  | some stream =>
    match prepare stream answers with
    | none => none
    | some (.error (errno, stream)) => some (.error (errno, { s with stream := some stream }))
    | some (.ok stream) => some (.ok (false, stream))

def Fhandle.afterFailure (stream : Fhandle) (lost : Bool) : Fhandle :=
  if lost ∧ stream.datastream ≠ none then
    { stream with locked := false, datastream := none, metahandle := none }
  else { stream with locked := false }

/-- A handle without a meta handle is defunct. -/
def Fhandle.errno (stream : Fhandle) : Errno := if stream.metahandle = none then .ebadfd else .left

/-! ## Creating -/

def creatOn (config : MarfsConfig) (itype : Interface) (pos : MarfsPosition) (answers : Answers)
    (newstream : Bool) (stream : Fhandle) (ledger : Ledger) : Reply × State :=
  match configDuplicatensref config pos.ns answers.duplicated ledger with
  | (none, ledger) =>
    -- the lock of an existing handle stays held
    (.refused .left, ⟨if newstream then none else some stream, ledger⟩)
  | (some dupref, ledger) =>
    match answers.streamed with
    | .failed lost _ =>
      let ledger := configDestroynsref (some dupref) ledger
      if newstream then (.refused .left, ⟨none, ledger⟩)
      else
        let stream := stream.afterFailure lost
        (.refused stream.errno, ⟨some stream, ledger⟩)
    | .opened datastream metahandle =>
      let ledger := configDestroynsref stream.ns ledger
      (.returned, ⟨some
        { locked := false, flags := oWronly ||| oCreat, ns := some dupref, metahandle := some metahandle
          datastream := some datastream, itype := itype }, ledger⟩)

def creatTarget (config : MarfsConfig) (itype : Interface) (answers : Answers) :
    Except Errno MarfsPosition :=
  match answers.shift with
  | .failed => .error .left
  | .found pos _ depth =>
    let ns := config.deref pos.ns
    if (itype ≠ .interactive ∧ (ns.bperms &&& nsRwmeta ≠ nsRwmeta ∨ ns.bperms &&& nsWritedata = 0)) ∨
        (itype ≠ .batch ∧ (ns.iperms &&& nsRwmeta ≠ nsRwmeta ∨ ns.iperms &&& nsWritedata = 0)) then
      .error .eperm
    else if depth = 0 then .error .eisdir
    else if overQuota ns.fquota answers.inodeusage ∨ overQuota ns.dquota answers.datausage then
      .error .edquot
    else .ok pos

def marfsCreat (config : MarfsConfig) (itype : Interface) (answers : Answers) (s : State) :
    Option (Reply × State) :=
  match creatTarget config itype answers with
  | .error errno => s.refuse errno
  | .ok pos =>
    match takeHandle answers false s with
    | none => none
    | some (.error (errno, s)) => s.refuse errno
    | some (.ok (newstream, stream)) => some (creatOn config itype pos answers newstream stream s.ledger)

/-! ## Opening -/

def openAsync (itype : Interface) (flags : Nat) (answers : Answers) (newstream : Bool)
    (stream : Fhandle) (dupref : NsPtr) (ledger : Ledger) : Reply × State :=
  if stream.datastream ≠ none ∧ ¬ answers.released then
    (.refused .ebadfd, ⟨some { stream with locked := false, datastream := none, metahandle := none },
      configDestroynsref (some dupref) ledger⟩)
  else
    let ledger := configDestroynsref stream.ns ledger
    let stream : Fhandle :=
      { locked := false, flags := flags, datastream := none, ns := some dupref
        metahandle := answers.opened, itype := itype }
    if answers.opened = none then
      -- the handle keeps the reference
      let ledger := configDestroynsref (some dupref) ledger
      if newstream then (.refused .left, ⟨none, ledger⟩) else (.refused .ebadfd, ⟨some stream, ledger⟩)
    else (.returned, ⟨some stream, ledger⟩)

def openStream (itype : Interface) (flags : Nat) (answers : Answers) (newstream : Bool)
    (stream : Fhandle) (dupref : NsPtr) (ledger : Ledger) : Reply × State :=
  match answers.streamed with
  | .opened datastream metahandle =>
    (.returned, ⟨some
      { locked := false, flags := flags, ns := some dupref, metahandle := some metahandle
        datastream := some datastream, itype := itype }, configDestroynsref stream.ns ledger⟩)
  | .failed lost phandle =>
    match if flags &&& oAccmode = oRdonly then phandle else none with
    | some phandle =>
      -- a meta-only reference instead of the current stream
      if stream.datastream ≠ none ∧ ¬ lost ∧ ¬ answers.released then
        (.refused .ebadfd, ⟨some { stream with locked := false, datastream := none, metahandle := none },
          configDestroynsref (some dupref) ledger⟩)
      else
        (.returned, ⟨some
          { locked := false, flags := flags ||| oAsync, ns := some dupref, metahandle := some phandle
            datastream := none, itype := itype }, configDestroynsref stream.ns ledger⟩)
    | none =>
      -- the duplicated reference is dropped here
      if newstream then (.refused .left, ⟨none, ledger⟩)
      else
        let stream := stream.afterFailure lost
        (.refused stream.errno, ⟨some stream, ledger⟩)

def openOn (config : MarfsConfig) (itype : Interface) (pos : MarfsPosition) (flags : Nat)
    (answers : Answers) (newstream : Bool) (stream : Fhandle) (ledger : Ledger) : Reply × State :=
  match configDuplicatensref config pos.ns answers.duplicated ledger with
  | (none, ledger) =>
    if newstream then (.refused .left, ⟨none, ledger⟩)
    else (.refused stream.errno, ⟨some { stream with locked := false }, ledger⟩)
  | (some dupref, ledger) =>
    if flags &&& oAsync ≠ 0 then openAsync itype flags answers newstream stream dupref ledger
    else openStream itype flags answers newstream stream dupref ledger

def openTarget (config : MarfsConfig) (itype : Interface) (flags : Nat) (answers : Answers) :
    Except Errno MarfsPosition :=
  if flags &&& oAsync = 0 ∧ (flags &&& oAccmode = oRdwr ∨ flags ≠ flags &&& oAccmode) then .error .einval
  else
    match answers.shift with
    | .failed => .error .left
    | .found pos _ depth =>
      if denies itype (config.deref pos.ns) nsReadmeta then .error .eperm
      else if depth = 0 then .error .eisdir
      else .ok pos

def marfsOpen (config : MarfsConfig) (itype : Interface) (flags : Nat) (answers : Answers) (s : State) :
    Option (Reply × State) :=
  match openTarget config itype flags answers with
  | .error errno => s.refuse errno
  | .ok pos =>
    match takeHandle answers true s with
    | none => none
    | some (.error (errno, s)) => s.refuse errno
    | some (.ok (newstream, stream)) =>
      some (openOn config itype pos flags answers newstream stream s.ledger)

/-! ## Closing -/

def State.freed (s : State) (stream : Fhandle) : State := ⟨none, configDestroynsref stream.ns s.ledger⟩

def closeReply (succeeded : Bool) : Reply := if succeeded then .returned else .refused .left

def marfsClose (answers : Answers) (s : State) : Option (Reply × State) :=
  match s.stream with
  | none => s.refuse .einval
  | some stream =>
    if stream.locked then none
    else if ¬ answers.lock then s.refuse .left
    else if stream.metahandle = none ∧ stream.datastream = none then some (.refused .einval, s.freed stream)
    else if stream.datastream = none then some (closeReply answers.closed, s.freed stream)
    else some (closeReply answers.released, s.freed stream)

def marfsRelease (answers : Answers) (s : State) : Option (Reply × State) :=
  match s.stream with
  | none => s.refuse .einval
  | some stream =>
    if stream.locked then none
    else if ¬ answers.lock then s.refuse .left
    else if stream.datastream ≠ none then some (closeReply answers.released, s.freed stream)
    else if stream.metahandle ≠ none then some (closeReply answers.closed, s.freed stream)
    else some (.returned, s.freed stream)

/-! ## Calls -/

inductive Call where
  | creat (itype : Interface)
  | open (itype : Interface) (flags : Nat)
  | close
  | release
  deriving DecidableEq, Repr

/-- One call; `none` where it does not return. -/
def step (config : MarfsConfig) (s : State) (call : Call) (answers : Answers) : Option (Reply × State) :=
  match call with
  | .creat itype => marfsCreat config itype answers s
  | .open itype flags => marfsOpen config itype flags answers s
  | .close => marfsClose answers s
  | .release => marfsRelease answers s

end Marfs.Ownership
