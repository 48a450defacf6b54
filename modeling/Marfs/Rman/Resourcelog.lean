import Marfs.Rman.Opinfo

/-!
# Resource logs

A resource log of type `MODIFY` keeps the op chains that are in progress.  Threads send it chains of
ops: with `start` set, a chain is about to be executed; otherwise its ops were.  `processopinfo`
finds the op a message begins with, brings the remaining counts of the chain up to date, and tells
the sender through the progress flag whether it may go on.

The chains hang off the nodes of a hash table; `lookup` stands for `hash_lookup`, which maps a
stream ID to its node.
-/

namespace Marfs.Rman

open Tagging

inductive LogType where
  | record
  | modify
  deriving DecidableEq, Repr

structure OperationSummary where
  deletionObjectCount : Nat := 0
  deletionObjectFailures : Nat := 0
  deletionReferenceCount : Nat := 0
  deletionReferenceFailures : Nat := 0
  rebuildCount : Nat := 0
  rebuildFailures : Nat := 0
  repackCount : Nat := 0
  repackFailures : Nat := 0
  deriving DecidableEq, Repr

def OperationSummary.note (summary : OperationSummary) (type : OperationType) (count failures : Nat) :
    OperationSummary :=
  match type with
  | .deleteObj =>
    { summary with
      deletionObjectCount := summary.deletionObjectCount + count
      deletionObjectFailures := summary.deletionObjectFailures + failures }
  | .deleteRef =>
    { summary with
      deletionReferenceCount := summary.deletionReferenceCount + count
      deletionReferenceFailures := summary.deletionReferenceFailures + failures }
  | .rebuild =>
    { summary with
      rebuildCount := summary.rebuildCount + count
      rebuildFailures := summary.rebuildFailures + failures }
  | .repack =>
    { summary with
      repackCount := summary.repackCount + count
      repackFailures := summary.repackFailures + failures }

/-- `resourcelog_struct`: the state `processopinfo` works on. -/
structure Resourcelog where
  type : LogType
  outstandingcnt : Int
  summary : OperationSummary
  inprogress : Nat → List (List Opinfo)

def Resourcelog.init (type : LogType) : Resourcelog :=
  { type := type, outstandingcnt := 0, summary := {}, inprogress := fun _ => [] }

/-! ## Finding the op -/

/-- Where a message fits in: the chains of its node around the matching one, that chain up to and
from the matching op, and whether ops of the chain, or ops like the matching one right before it,
are still active. -/
structure Found where
  before : List (List Opinfo)
  pre : List Opinfo
  tail : List Opinfo
  after : List (List Opinfo)
  activechain : Bool
  activealike : Bool
  deriving DecidableEq, Repr

namespace Found

def chain (found : Found) : List Opinfo := found.pre ++ found.tail

/-- The chains of the node with other ops from the matching one on. -/
def put (found : Found) (tail : List Opinfo) : List (List Opinfo) :=
  found.before ++ (found.pre ++ tail) :: found.after

/-- The chains of the node without the matching one. -/
def remove (found : Found) : List (List Opinfo) := found.before ++ found.after

end Found

def Opinfo.matches (op newop : Opinfo) : Bool :=
  op.ftag.objno == newop.ftag.objno && op.ftag.fileno == newop.ftag.fileno &&
    op.type == newop.type

def searchChain (newop : Opinfo) (pre : List Opinfo) (activechain activealike : Bool) :
    List Opinfo → Option Found
  | [] => none
  | op :: ops =>
    if op.matches newop then
      some { before := [], pre := pre, tail := op :: ops, after := []
             activechain := activechain, activealike := activealike }
    else
      searchChain newop (pre ++ [op]) (activechain || op.count ≠ 0)
        (if op.type ≠ newop.type then false else activealike || op.count ≠ 0) ops

def onStream (newop : Opinfo) : List Opinfo → Bool
  | [] => false
  | op :: _ => op.ftag.streamid == newop.ftag.streamid && op.ftag.ctag == newop.ftag.ctag

def searchNode (newop : Opinfo) : List (List Opinfo) → Option Found
  | [] => none
  | chain :: chains =>
    match if onStream newop chain then searchChain newop [] false false chain else none with
    | some found => some { found with after := chains }
    | none =>
      (searchNode newop chains).map fun found => { found with before := chain :: found.before }

/-! ## Completions -/

/-- How the loop over a completion message ends: with an error; at an op that is not complete yet;
or with the last op of the message complete, whose recorded error, whether alike ops behind it are
active, and whether it ends its chain, decide what follows. -/
inductive Completion where
  | failed
  | incomplete
  | settled (errval : Int) (activealike : Bool) (last : Bool)
  deriving DecidableEq, Repr

def alikeActive (type : OperationType) (ops : List Opinfo) : Bool :=
  (ops.takeWhile fun op => op.type == type).any fun op => op.count ≠ 0

/-- An in-progress op after a completion: it keeps the error, and counts down. -/
def Opinfo.complete (index op : Opinfo) : Opinfo :=
  { index with
    errval := if op.errval ≠ 0 then op.errval else index.errval
    count := index.count - op.count }

def Resourcelog.noteCompletion (log : Resourcelog) (op : Opinfo) : Resourcelog :=
  { log with
    summary := log.summary.note op.type op.count (if op.errval ≠ 0 then op.count else 0) }

/-- The loop of `processopinfo` over a completion message, against the in-progress ops from the
matching one on. -/
def completeOps (log : Resourcelog) : List Opinfo → List Opinfo →
    Resourcelog × List Opinfo × Completion
  | [], index => (log, index, .failed)
  | _ :: _, [] => (log, [], .failed)
  | op :: ops, old :: olds =>
    -- excessive count
    if op.count > old.count then (log, old :: olds, .failed)
    else
      let log := log.noteCompletion op
      let old := old.complete op
      if old.count ≠ 0 then
        -- an incomplete op must be the last of its message
        (log, old :: olds, if ops = [] then .incomplete else .failed)
      else
        let settled := { log with outstandingcnt := log.outstandingcnt - 1 }
        match ops, olds with
        | [], olds =>
          (settled, old :: olds, .settled old.errval (alikeActive op.type olds) olds.isEmpty)
        | _ :: _, [] => (log, [old], .failed)
        | nextop :: ops, nextold :: olds =>
          if ftagCmp nextop.ftag nextold.ftag || nextop.type ≠ nextold.type then
            (log, old :: nextold :: olds, .failed)
          else
            let (log, olds, completion) := completeOps settled (nextop :: ops) (nextold :: olds)
            (log, old :: olds, completion)

/-! ## Starts -/

/-- The loop of `processopinfo` over the start of ops that are in progress already: a higher count
is a re-issue.  The source follows the chain of in-progress ops without a check; `none` where it
runs past its end. -/
def restartOps (outstandingcnt : Int) : List Opinfo → List Opinfo → Option (Int × List Opinfo)
  | [], index => some (outstandingcnt, index)
  | _ :: _, [] => none
  | op :: ops, old :: olds => do
    let reset := op.count > old.count
    let (outstandingcnt, olds) ← restartOps
      (if reset && old.count = 0 then outstandingcnt + 1 else outstandingcnt) ops olds
    some (outstandingcnt, (if reset then { old with count := op.count } else old) :: olds)

/-! ## Messages -/

/-- The outcomes of a message: `0`, `-1`, or an access to a missing op. -/
inductive Result where
  | ok
  | failed
  | crashed
  deriving DecidableEq, Repr

/-- The log after a message, what the message left in the progress flag, and its outcome. -/
structure Processed where
  log : Resourcelog
  progress : Option Int
  result : Result

def Resourcelog.setNode (log : Resourcelog) (node : Nat) (chains : List (List Opinfo)) :
    Resourcelog :=
  { log with inprogress := fun i => if i = node then chains else log.inprogress i }

/-- The progress flag after a completion message: alike ops hold it back, and the error recorded on
the op the message ends on decides it. -/
def Found.progress (found : Found) : Completion → Option Int
  | .failed => none
  | .incomplete => some 0
  | .settled errval activealike _ =>
    some (if found.activealike || activealike then 0 else if errval = 0 then 1 else -1)

def Found.finishes (found : Found) : Completion → Bool
  | .settled _ _ last => !found.activechain && last
  | _ => false

def processCompletion (log : Resourcelog) (node : Nat) (found : Found) (newop : List Opinfo) :
    Processed :=
  let (log, tail, completion) := completeOps log newop found.tail
  { log := log.setNode node (if found.finishes completion then found.remove else found.put tail)
    progress := found.progress completion
    result := if completion = .failed then .failed else .ok }

/-- A start message whose first op was found. -/
def processRestart (log : Resourcelog) (node : Nat) (found : Found) (newop : List Opinfo) :
    Processed :=
  match restartOps log.outstandingcnt newop found.tail with
  | none => { log := log, progress := none, result := .crashed }
  | some (outstandingcnt, tail) =>
    { log := { log with outstandingcnt := outstandingcnt }.setNode node (found.put tail)
      progress := none
      result := .ok }

def processNew (log : Resourcelog) (node : Nat) (newop : List Opinfo) (start : Bool) : Processed :=
  if !start then { log := log, progress := none, result := .failed }
  else
    match log.type with
    | .modify =>
      { log := { log with outstandingcnt := log.outstandingcnt + newop.length }.setNode node
          (log.inprogress node ++ [newop])
        progress := none
        result := .ok }
    | .record =>
      { log := { log with
          summary := newop.foldl (fun summary op => summary.note op.type op.count 0) log.summary }
        progress := none
        result := .ok }

def processopinfo (lookup : List Char → Nat) (log : Resourcelog) (newop : List Opinfo) : Processed :=
  match newop with
  | [] => { log := log, progress := none, result := .failed }
  | op :: _ =>
    if newop.any fun finop => finop.start ≠ op.start then
      { log := log, progress := none, result := .failed }
    else
      let node := lookup op.ftag.streamid
      match searchNode op (log.inprogress node) with
      | none => processNew log node newop op.start
      | some found =>
        if op.start then processRestart log node found newop
        else processCompletion log node found newop

/-- `resourcelog_processop`: the message is also written to the log file, `printed` says with what
success. -/
def resourcelogProcessop (lookup : List Char → Nat) (printed : Bool) (log : Resourcelog)
    (op : List Opinfo) : Processed :=
  let processed := processopinfo lookup log op
  if processed.result = .ok && !printed then { processed with result := .failed } else processed

/-! ## Executing a chain -/

/-- What one turn of `process_executeoperation` sends to the log, and the ops it goes on with.  An
object deletion is executed on its own, any other chain as a whole; a skipped op keeps its chain. -/
def turnMessage (execute : List Opinfo → List Opinfo) (abortops : Bool) :
    List Opinfo → Option (List Opinfo × List Opinfo)
  | [] => none
  | op :: nextop =>
    if abortops then some ({ op with errval := Errno.eagain.toInt } :: nextop, nextop)
    else
      match op.type with
      | .deleteObj => some (execute [op], nextop)
      | _ => some (execute (op :: nextop), [])

inductive Turn where
  | failed
  | stopped
  | next (ops : List Opinfo) (abortops : Bool)
  deriving DecidableEq, Repr

/-- One turn of the loop of `process_executeoperation`.  `execute` carries out a chain and marks its
ops with their errors, as completions. -/
def executeTurn (lookup : List Char → Nat) (printed : Bool) (execute : List Opinfo → List Opinfo)
    (log : Resourcelog) (ops : List Opinfo) (abortops : Bool) : Resourcelog × Turn :=
  match turnMessage execute abortops ops with
  | none => (log, .stopped)
  | some (op, nextop) =>
    let processed := resourcelogProcessop lookup printed log op
    let progress := processed.progress.getD 0
    if processed.result ≠ .ok then (processed.log, .failed)
    else if progress = 0 then (processed.log, .stopped)
    else (processed.log, .next nextop (abortops || progress < 0))

end Marfs.Rman
