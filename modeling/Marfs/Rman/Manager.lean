import Marfs.Hash.Table
import Marfs.Rman.Streamwalker
import Marfs.Rman.Resourcelog

/-!
# The manager rank

One rank hands out work to all: every worker rank asks for work by answering the request before, and
`handleresponse` decides what it gets next.  Of each namespace the manager keeps only how many of its
reference ranges it has handed out.  A worker has one request at a time, so a run is determined by the
order in which the manager receives the answers and by what the workers report.

Log files are processed by calls of which only the success matters; texts that are printed are left
out.
-/

namespace Marfs.Rman

open Hash

/-! ## Requests and responses -/

inductive WorkType where
  | rlog
  | ns
  | complete
  | terminate
  | abort
  deriving DecidableEq, Repr

structure WorkRequest where
  type : WorkType
  nsindex : Nat
  refdist : Nat
  iteration : List Char
  ranknum : Nat
  deriving DecidableEq, Repr

structure WalkReport extends StreamwalkerReport where
  rpckfiles : Nat := 0
  rpckbytes : Nat := 0
  rbldbytes : Nat := 0
  deriving DecidableEq, Repr

structure WorkResponse where
  request : WorkRequest
  haveinfo : Bool
  report : WalkReport
  summary : OperationSummary
  errorlog : Bool
  fatalerror : Bool
  deriving DecidableEq, Repr

def WalkReport.add (total report : WalkReport) : WalkReport :=
  { fileusage := total.fileusage + report.fileusage
    byteusage := total.byteusage + report.byteusage
    filecount := total.filecount + report.filecount
    objcount := total.objcount + report.objcount
    bytecount := total.bytecount + report.bytecount
    streamcount := total.streamcount + report.streamcount
    delobjs := total.delobjs + report.delobjs
    delfiles := total.delfiles + report.delfiles
    delstreams := total.delstreams + report.delstreams
    volfiles := total.volfiles + report.volfiles
    rpckfiles := total.rpckfiles + report.rpckfiles
    rpckbytes := total.rpckbytes + report.rpckbytes
    rbldobjs := total.rbldobjs + report.rbldobjs
    rbldbytes := total.rbldbytes + report.rbldbytes }

def OperationSummary.add (total summary : OperationSummary) : OperationSummary :=
  { deletionObjectCount := total.deletionObjectCount + summary.deletionObjectCount
    deletionObjectFailures := total.deletionObjectFailures + summary.deletionObjectFailures
    deletionReferenceCount := total.deletionReferenceCount + summary.deletionReferenceCount
    deletionReferenceFailures :=
      total.deletionReferenceFailures + summary.deletionReferenceFailures
    rebuildCount := total.rebuildCount + summary.rebuildCount
    rebuildFailures := total.rebuildFailures + summary.rebuildFailures
    repackCount := total.repackCount + summary.repackCount
    repackFailures := total.repackFailures + summary.repackFailures }

/-! ## The state of the manager -/

/-- `loginfo`: the requests for the old logs of a namespace; the last ones are gone already. -/
structure Loginfo where
  nsindex : Nat
  logcount : Nat
  requests : List WorkRequest
  deriving DecidableEq, Repr

structure ManagedNs where
  idstr : List Char
  refnodecount : Nat
  deriving DecidableEq, Repr

structure Rmanstate where
  workingranks : Nat
  oldlogs : Option (HashTable Loginfo)
  nslist : List ManagedNs
  distributed : Nat → Nat
  fatalerror : Bool
  nonfatalerror : Bool
  terminatedworkers : Nat → Bool
  walkreport : Nat → WalkReport
  logsummary : Nat → OperationSummary
  execprevroot : Bool

/-- The number of namespaces. -/
def Rmanstate.nscount (rman : Rmanstate) : Nat := rman.nslist.length

def Rmanstate.start (workingranks : Nat) (nslist : List ManagedNs)
    (oldlogs : Option (HashTable Loginfo)) (execprevroot : Bool) : Rmanstate :=
  { workingranks := workingranks, oldlogs := oldlogs, nslist := nslist, distributed := fun _ => 0
    fatalerror := false, nonfatalerror := false, terminatedworkers := fun _ => false
    walkreport := fun _ => {}, logsummary := fun _ => {}, execprevroot := execprevroot }

/-- `getNSrange`: the reference directories of a distribution, from the first up to the second. -/
def getNSrange (refnodecount workingranks refdist : Nat) : Nat × Nat :=
  let refperrank := refnodecount / workingranks
  let remainder := refnodecount % workingranks
  let prevextra := if refdist > remainder then remainder else refdist
  let refmin := refdist * refperrank + prevextra
  (refmin, refmin + refperrank + if refdist < remainder then 1 else 0)

/-! ## Old logs -/

def takeRequest (table : HashTable Loginfo) (nodenum : Nat) :
    Option (WorkRequest × HashTable Loginfo) := do
  let node ← table.nodes[nodenum]?
  let linfo := node.content
  if linfo.logcount = 0 then none
  else do
    let request ← linfo.requests[linfo.logcount - 1]?
    let linfo := { linfo with logcount := linfo.logcount - 1 }
    some (request, { table with nodes := table.nodes.set nodenum { node with content := linfo } })

def searchOldlogs : Nat → HashTable Loginfo → Option Nat → Option (WorkRequest × HashTable Loginfo)
  | 0, _, _ => none
  | _, _, none => none
  | fuel + 1, table, some resnode =>
    match takeRequest table resnode with
    | some taken => some taken
    | none => searchOldlogs fuel (hashIterate table).2 (hashIterate table).1

/-! ## Handing out work -/

inductive Handled where
  | send (request : WorkRequest)
  | quiet
  | failed
  deriving DecidableEq, Repr

/-- Hand out the next reference range of a namespace. -/
def handOut (rman : Rmanstate) (ranknum nsindex : Nat) : Rmanstate × Handled :=
  ({ rman with
      distributed := fun n => if n = nsindex then rman.distributed n + 1 else rman.distributed n },
    .send
      { type := .ns, nsindex := nsindex, refdist := rman.distributed nsindex, iteration := []
        ranknum := ranknum })

/-- The first namespace of which so many ranges have been handed out. -/
def Rmanstate.findNs (rman : Rmanstate) (p : Nat → Bool) : Option Nat :=
  (List.range rman.nscount).find? fun nsindex => p (rman.distributed nsindex)

/-- Work for a rank with no preference: of a namespace that no rank works on, else of any; the rank
terminates if there is none.  `request` is the one that was sent before. -/
def needRange (rman : Rmanstate) (ranknum : Nat) (request : WorkRequest) : Rmanstate × Handled :=
  if rman.execprevroot then (rman, .send { request with type := .terminate })
  else
    match rman.findNs fun distributed => distributed = 0 with
    | some nsindex => handOut rman ranknum nsindex
    | none =>
      match rman.findNs fun distributed => distributed < rman.workingranks with
      | some nsindex => handOut rman ranknum nsindex
      | none => (rman, .send { request with type := .terminate })

def needWork (rman : Rmanstate) (ranknum : Nat) (request : WorkRequest) : Rmanstate × Handled :=
  match rman.oldlogs with
  | none => needRange rman ranknum request
  | some table =>
    match searchOldlogs (table.nodecount + 1) (hashReset table) none with
    | some (request, table) => ({ rman with oldlogs := some table }, .send request)
    | none => needRange { rman with oldlogs := none } ranknum request

def continueRange (rman : Rmanstate) (ranknum : Nat) (response : WorkResponse) :
    Rmanstate × Handled :=
  if rman.execprevroot then (rman, .send { response.request with type := .complete })
  else if rman.distributed response.request.nsindex < rman.workingranks then
    handOut rman ranknum response.request.nsindex
  else (rman, .send { response.request with type := .complete })

/-- The same, after the old logs of that namespace. -/
def continueWork (identifier : List Char → Id) (rman : Rmanstate) (ranknum : Nat)
    (response : WorkResponse) : Rmanstate × Handled :=
  match rman.oldlogs with
  | none => continueRange rman ranknum response
  | some table =>
    match rman.nslist[response.request.nsindex]?.bind fun ns =>
        hashLookup identifier (table.vnodecount + 1) table ns.idstr with
    | some (0, nodenum) =>
      match takeRequest table nodenum with
      | some (request, table) => ({ rman with oldlogs := some table }, .send request)
      | none => continueRange rman ranknum response
    | _ => ({ rman with fatalerror := true }, .failed)

/-- What a rank has reported about a namespace goes into the totals. -/
def incorporate (rman : Rmanstate) (response : WorkResponse) : Rmanstate :=
  if response.haveinfo then
    { rman with
      walkreport := fun n => if n = response.request.nsindex then
        (rman.walkreport n).add response.report else rman.walkreport n
      logsummary := fun n => if n = response.request.nsindex then
        (rman.logsummary n).add response.summary else rman.logsummary n }
  else rman

def completed (logs : Bool) (rman : Rmanstate) (ranknum : Nat) (response : WorkResponse)
    (request : WorkRequest) : Rmanstate × Handled :=
  if response.request.nsindex ≠ rman.nscount then
    let rman := incorporate rman response
    if logs then
      needWork { rman with nonfatalerror := rman.nonfatalerror || response.errorlog } ranknum request
    else ({ rman with fatalerror := true }, .failed)
  else needWork rman ranknum request

def abortRequest : WorkRequest :=
  { type := .abort, nsindex := 0, refdist := 0, iteration := [], ranknum := 0 }

def Rmanstate.exited (rman : Rmanstate) (ranknum : Nat) : Rmanstate :=
  { rman with terminatedworkers := fun n => if n = ranknum then true else rman.terminatedworkers n }

def handleresponse (identifier : List Char → Id) (logs : Bool) (rman : Rmanstate) (ranknum : Nat)
    (response : WorkResponse) (request : WorkRequest) : Rmanstate × Handled :=
  if response.fatalerror then ({ rman.exited ranknum with fatalerror := true }, .quiet)
  else if rman.fatalerror ∧ response.request.type ≠ .abort then (rman, .send abortRequest)
  else
    match response.request.type with
    | .terminate => (rman.exited ranknum, .quiet)
    | .abort => (rman.exited ranknum, .quiet)
    | .complete => completed logs rman ranknum response request
    | .ns => continueWork identifier rman ranknum response
    | .rlog => continueWork identifier rman ranknum response

/-! ## The workers -/

/-- The state of a worker rank: the namespace its log and its threads are for, and whether it is
still running. -/
structure Rank where
  target : Option Nat
  running : Bool
  deriving DecidableEq, Repr

/-- What the work on a request comes to. -/
structure WorkResult where
  ok : Bool
  report : WalkReport
  summary : OperationSummary
  errorlog : Bool

def WorkRequest.failure (request : WorkRequest) : WorkResponse :=
  { request := request, haveinfo := false, report := {}, summary := {}, errorlog := false
    fatalerror := true }

def handlerequest (rank : Rank) (request : WorkRequest) (work : WorkResult) : Rank × WorkResponse :=
  match request.type with
  | .terminate => ({ rank with running := false }, { request.failure with fatalerror := false })
  | .abort => ({ rank with running := false }, { request.failure with fatalerror := false })
  | .complete =>
    if rank.target.isSome ∧ work.ok then
      ({ rank with target := none },
        { request := request, haveinfo := true, report := work.report, summary := work.summary
          errorlog := work.errorlog, fatalerror := false })
    else ({ rank with running := false }, request.failure)
  | _ =>
    -- a rank without a target gets the namespace of the request for one
    if work.ok then
      ({ rank with target := rank.target.or (some request.nsindex) },
        { request.failure with fatalerror := false })
    else ({ rank with running := false }, request.failure)

/-! ## Runs -/

/-- The message between the manager and a worker. -/
inductive Mail where
  | request (request : WorkRequest)
  | response (response : WorkResponse)
  | none
  deriving DecidableEq, Repr

inductive Event where
  | issued (ranknum : Nat) (request : WorkRequest)
  | answered (ranknum : Nat) (response : WorkResponse)
  deriving DecidableEq, Repr

/-- The manager with its request buffer, the ranks and their mail, and what has happened, the last
event first. -/
structure System where
  rman : Rmanstate
  request : WorkRequest
  ranks : Nat → Rank
  mail : Nat → Mail
  events : List Event

def startup (nscount : Nat) : WorkResponse :=
  { request := { type := .complete, nsindex := nscount, refdist := 0, iteration := [], ranknum := 0 }
    haveinfo := false, report := {}, summary := {}, errorlog := false, fatalerror := false }

namespace System

def start (rman : Rmanstate) (workers : List Nat) : System :=
  { rman := rman
    request := { type := .rlog, nsindex := 0, refdist := 0, iteration := [], ranknum := 0 }
    ranks := fun _ => { target := none, running := true }
    mail := fun i => if i ∈ workers then .response (startup rman.nscount) else .none
    events := [] }

def work (s : System) (i : Nat) (request : WorkRequest) (work : WorkResult) : System :=
  { s with
    ranks := fun j => if j = i then (handlerequest (s.ranks i) request work).1 else s.ranks j
    mail := fun j =>
      if j = i then .response (handlerequest (s.ranks i) request work).2 else s.mail j }

def handled (identifier : List Char → Id) (s : System) (i : Nat) (response : WorkResponse) :
    Rmanstate × Handled :=
  handleresponse identifier true s.rman i response s.request

def sent (s : System) (rman : Rmanstate) (i : Nat) (response : WorkResponse)
    (request : WorkRequest) : System :=
  { s with
    rman := rman, request := request
    mail := fun j => if j = i then .request request else s.mail j
    events := .issued i request :: .answered i response :: s.events }

/-- The manager has nothing to send to rank `i`. -/
def closed (s : System) (rman : Rmanstate) (i : Nat) (response : WorkResponse) : System :=
  { s with
    rman := rman
    mail := fun j => if j = i then .none else s.mail j
    events := .answered i response :: s.events }

inductive Step (identifier : List Char → Id) (s : System) : System → Prop
  | work {i : Nat} {request : WorkRequest} {work : WorkResult} (mail : s.mail i = .request request)
    (running : (s.ranks i).running = true) (ok : work.ok = true) :
    Step identifier s (s.work i request work)
  | sent {i : Nat} {response : WorkResponse} {request : WorkRequest}
    (mail : s.mail i = .response response)
    (handled : (s.handled identifier i response).2 = .send request) :
    Step identifier s (s.sent (s.handled identifier i response).1 i response request)
  | closed {i : Nat} {response : WorkResponse} (mail : s.mail i = .response response)
    (handled : (s.handled identifier i response).2 = .quiet) :
    Step identifier s (s.closed (s.handled identifier i response).1 i response)

/-- The states of the runs from a start. -/
def Reached (identifier : List Char → Id) (init s : System) : Prop :=
  Relation.ReflTransGen (Step identifier) init s

theorem Reached.invariant {identifier : List Char → Id} {init s : System} {P : System → Prop}
    (hs : Reached identifier init s) (hinit : P init)
    (hstep : ∀ s s', P s → Step identifier s s' → P s') : P s := by
  induction hs with
  | refl => exact hinit
  | tail _ hlast ih => exact hstep _ _ ih hlast

end System

end Marfs.Rman
