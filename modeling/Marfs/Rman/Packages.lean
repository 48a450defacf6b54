import Marfs.Rman.Producer

/-!
# Work packages

A producer thread holds the chains it logged in three queues.  Rebuilds go out one by one, a repack
chain as a whole, and a GC chain in pieces that each end in a copy of its reference deletions.
Worker threads run the packages in any order, with any errors, and send every completion to the log.

`Dispatch` is the state of the whole.  What the log is told is the concern here: that every op of the
chain is completed for its whole count, that no call fails and no op is freed twice, and that the
chain leaves nothing outstanding (`Dispatch.Accounted`).
-/

namespace Marfs.Rman

open Tagging

/-! ## The producer -/

/-- The queues of `rthread_state`. -/
structure Queues where
  rebuildops : List Opinfo := []
  repackops : List Opinfo := []
  gcops : List Opinfo := []
  deriving DecidableEq, Repr

def Queues.of (opchain : List Opinfo) : Queues :=
  match opchain with
  | [] => {}
  | op :: _ =>
    match op.type with
    | .deleteObj => { gcops := opchain }
    | .deleteRef => { gcops := opchain }
    | .repack => { repackops := opchain }
    | .rebuild => { rebuildops := opchain }

/-- How `rthread_producer_func` hands out pending ops: the next package, and what the thread keeps. -/
def produceOps (queues : Queues) : Option (List Opinfo × Queues) :=
  match queues.rebuildops with
  | newop :: rebuildops => some ([newop], { queues with rebuildops := rebuildops })
  | [] =>
    if queues.repackops ≠ [] then some (queues.repackops, { queues with repackops := [] })
    else if queues.gcops ≠ [] then
      let (newop, gcops) := produceGc queues.gcops
      some (newop, { queues with gcops := gcops })
    else none

/-! ## The workers -/

/-- How an execution ends: the error of the reference table that reference deletions need, and the
error of each op; zero where it went well. -/
structure Outcome where
  reftable : Int
  errval : Nat → Int

def Opinfo.executed (op : Opinfo) (errval : Int) : Opinfo :=
  { op with start := false, errval := if errval ≠ 0 then errval else op.errval }

/-- What an execution makes of the ops of a chain.  Without a reference table `process_deleteref`
returns before it marks any op as executed. -/
def Outcome.execute (outcome : Outcome) : List Opinfo → List Opinfo
  | [] => []
  | op :: ops =>
    if op.type = .deleteRef ∧ outcome.reftable ≠ 0 then
      { op with errval := outcome.reftable } :: ops
    else (op :: ops).mapIdx fun i op => op.executed (outcome.errval i)

/-- The turn frees the ops that follow along with the op it skipped: that one is still linked to
them. -/
def Executed.Refrees (executed : Executed) : Bool := executed.abortops && executed.nextop ≠ []

/-- The state of a producer, its packages and the log they share with other chains.  The last four
fields keep the history: the ops of the completions the log accepted, whether a call of
`process_executeoperation` failed, whether an op was freed twice, and what messages about other chains
added to the outstanding count. -/
structure Dispatch where
  log : Resourcelog
  queues : Queues
  ready : List Package
  running : List Executed
  completed : List Opinfo
  failed : Bool
  refreed : Bool
  others : Int

namespace Dispatch

/-- What happens next: the producer fills a package; a worker executes a package that is ready; a
worker logs what it executed; or somebody logs a message about another chain. -/
inductive Action where
  | produce
  | execute (i : Nat) (outcome : Outcome)
  | complete (i : Nat)
  | other (message : List Opinfo)

def step (lookup : List Char → Nat) (s : Dispatch) : Action → Option Dispatch
  | .produce => do
    let (newop, queues) ← produceOps s.queues
    some { s with queues := queues, ready := s.ready ++ [{ ops := newop, abortops := false }] }
  | .execute i outcome => do
    let package ← s.ready[i]?
    let (message, nextop) ← turnMessage outcome.execute package.abortops package.ops
    some { s with
      ready := s.ready.eraseIdx i
      running := s.running ++
        [{ message := message, nextop := nextop, abortops := package.abortops }] }
  | .complete i => do
    let executed ← s.running[i]?
    let ok := (resourcelogProcessop lookup true s.log executed.message).result = .ok
    let (log, next) := executed.turn lookup true s.log
    some { s with
      log := log
      ready := s.ready ++ next.toList
      running := s.running.eraseIdx i
      completed :=
        if ok then s.completed ++ executed.message.filter fun op => !op.start else s.completed
      failed := s.failed || !ok
      refreed := s.refreed || executed.Refrees }
  | .other message =>
    let log := (processopinfo lookup s.log message).log
    some { s with log := log, others := s.others + (log.outstandingcnt - s.log.outstandingcnt) }

/-- A producer that has just logged a chain. -/
def init (lookup : List Char → Nat) (log : Resourcelog) (opchain : List Opinfo) : Dispatch :=
  { log := (processopinfo lookup log opchain).log, queues := .of opchain, ready := [], running := []
    completed := [], failed := false, refreed := false, others := 0 }

/-- All packages have been run. -/
def Done (s : Dispatch) : Prop := s.queues = {} ∧ s.ready = [] ∧ s.running = []

end Dispatch

/-! ## Chains -/

/-- The chains that are logged: object deletions and the reference deletions they make way for,
rebuilds, or repacks. -/
inductive ChainKind where
  | gc
  | rebuild
  | repack
  deriving DecidableEq, Repr

def ChainKind.pieceType : ChainKind → OperationType
  | .gc => .deleteObj
  | _ => .rebuild

def ChainKind.wholeType : ChainKind → OperationType
  | .gc => .deleteRef
  | _ => .repack

/-- Which ops a chain has: a GC chain ends in reference deletions, and only a GC chain has ops of both
kinds. -/
def ChainKind.Shape (pieces whole : List Opinfo) : ChainKind → Prop
  | .gc => whole ≠ []
  | .rebuild => pieces ≠ [] ∧ whole = []
  | .repack => pieces = [] ∧ whole ≠ []

/-- A chain as a stream walker builds it: ops that are completed in pieces, followed by ops that are
completed as a whole.  The log can tell the former apart, and none of them is empty. -/
structure OpChain where
  kind : ChainKind
  pieces : List Opinfo
  whole : List Opinfo
  piece_type : ∀ op ∈ pieces, op.type = kind.pieceType
  whole_type : ∀ op ∈ whole, op.type = kind.wholeType
  shape : kind.Shape pieces whole
  start : ∀ op ∈ pieces ++ whole, op.start = true
  count_pos : ∀ op ∈ pieces, 0 < op.count
  distinct : pieces.Pairwise fun op op' => op.matches op' = false
  ctag : List Char
  streamid : List Char
  stream : ∀ op ∈ pieces ++ whole, op.ftag.ctag = ctag ∧ op.ftag.streamid = streamid

namespace OpChain

def ops (chain : OpChain) : List Opinfo := chain.pieces ++ chain.whole

def Fresh (chain : OpChain) (lookup : List Char → Nat) (log : Resourcelog) : Prop :=
  log.type = .modify ∧
    ∀ op ∈ chain.ops, searchNode op (log.inprogress (lookup chain.streamid)) = none

/-- A message about another chain: on another stream, or with another op. -/
def Foreign (chain : OpChain) (message : List Opinfo) : Prop :=
  ∀ newop ∈ message.head?,
    newop.ftag.ctag = chain.ctag → newop.ftag.streamid = chain.streamid →
      ∀ op ∈ chain.ops, op.matches newop = false

end OpChain

/-! ## What is asked of a run -/

/-- The message settles the last outstanding object deletion of its chain with an error: its own, or
one that was recorded on its op before. -/
def Found.Breaks (found : Found) (op : Opinfo) : Prop :=
  ∃ old rest, found.tail = old :: rest ∧ op.count = old.count ∧ (old.complete op).errval ≠ 0 ∧
    ∀ other ∈ found.pre ++ rest, other.type = .deleteObj → other.count = 0

namespace Dispatch

/-- No error of an object deletion keeps the reference deletions behind it from being executed, and
they find their reference table. -/
def Unbroken (lookup : List Char → Nat) (s : Dispatch) : Action → Prop
  | .execute i outcome =>
    ∀ package ∈ s.ready[i]?, ∀ op ∈ package.ops.head?, op.type = .deleteRef → outcome.reftable = 0
  | .complete i =>
    ∀ executed ∈ s.running[i]?, ∀ op, executed.message = [op] → op.type = .deleteObj →
      ∀ found, searchNode op (s.log.inprogress (lookup op.ftag.streamid)) = some found →
        ¬ found.Breaks op
  | _ => True

/-- The runs of a chain from the moment it is logged, where every step meets a condition.  Messages
about other chains come in between. -/
inductive Reaches (lookup : List Char → Nat) (chain : OpChain)
    (condition : Dispatch → Action → Prop) (log : Resourcelog) : Dispatch → Prop
  | init : Reaches lookup chain condition log (init lookup log chain.ops)
  | step {s s'} (h : Reaches lookup chain condition log s) (action : Action)
      (hforeign : ∀ message, action = .other message → chain.Foreign message)
      (hcondition : condition s action) (hstep : s.step lookup action = some s') :
      Reaches lookup chain condition log s'

/-- What the completions of a chain are meant to keep: no call failed, and no op was freed twice;
and once all packages have been run, every op of the chain was completed for its whole count, and
nothing of the chain is outstanding. -/
structure Accounted (chain : OpChain) (outstandingcnt : Int) (s : Dispatch) : Prop where
  accepted : s.failed = false
  freed : s.refreed = false
  completed : s.Done → ∃ pieces whole, s.completed.Perm (pieces ++ whole) ∧
    (∀ op ∈ pieces, ∃ d ∈ chain.pieces, d.ftag = op.ftag ∧ d.type = op.type) ∧
    (∀ d ∈ chain.pieces, ((pieces.filter fun op => op.matches d).map Opinfo.count).sum = d.count) ∧
    List.Forall₂ (fun w op => w.ftag = op.ftag ∧ w.type = op.type ∧ w.count = op.count)
      chain.whole whole
  settled : s.Done → s.log.outstandingcnt = outstandingcnt + s.others

end Dispatch

end Marfs.Rman
